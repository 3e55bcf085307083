import FlowTree.Proofs.Json.Grammar
import FlowTree.Proofs.Quoting
import FlowTree.Proofs.Results

/-! The tokens of a text are the words that it is made of, and what is written for a value is a text of that
value. Between two words any blanks may stand, so the text with one part per line is made of the same words
as the one without blanks. -/

set_option autoImplicit false

namespace FlowTree.Json

section Texts

open FlowTree.Text (digitIn? naturalIn? valueIn? digitIn?_digitChar)

variable (offset : Nat) (reversed rest : List Char)

theorem Text.hexFour_append {digits : List Char} {code : Nat} (four : digits.length = 4)
    (value : naturalIn? 16 digits = some code) : hexFour offset (digits ++ rest) = .ok (code, rest) := by
  match digits with
  | [a, b, c, d] => simp [hexFour, value]

def Text.Ended.content (ended : Text.Ended) : List Char × List Char := (ended.value, ended.rest)

namespace Piece

open FlowTree.Json.Text (wanted skipped numberedEscape simpleEscape? hexFour hexFour_append)

variable {pieces : List Piece}

theorem skipped_pieces (wellFormed : ∀ piece ∈ pieces, piece.WellFormed) :
    ∃ stop, skipped offset (pieces.flatMap chars ++ '"' :: rest) = .ok (stop, rest) := by
  induction pieces generalizing offset with
  | nil => exact ⟨offset + 1, by simp [skipped]⟩
  | cons piece pieces ih =>
    have head := wellFormed piece List.mem_cons_self
    have tail (offset : Nat) := ih offset fun piece mem => wellFormed piece (List.mem_cons_of_mem _ mem)
    rw [List.flatMap_cons, List.append_assoc]
    cases piece with
    | plain c =>
      obtain ⟨notQuote, notBackslash, visible⟩ := head
      obtain ⟨stop, further⟩ := tail (offset + c.utf8Size)
      refine ⟨stop, ?_⟩
      rw [chars, List.singleton_append, skipped]
      · rw [if_neg (by omega), further]
      all_goals grind
    | escaped letter c =>
      obtain ⟨stop, further⟩ := tail (offset + 2)
      refine ⟨stop, ?_⟩
      have other : letter ≠ 'u' := by rintro rfl; cases head
      rw [chars, List.cons_append, List.singleton_append, skipped]
      · rw [show simpleEscape? letter = some c from head]
        exact further
      · simpa using other
    | numbered digits code =>
      obtain ⟨stop, further⟩ := tail (offset + 6)
      refine ⟨stop, ?_⟩
      have four := hexFour_append (offset + 2) (pieces.flatMap chars ++ '"' :: rest) head.1 head.2
      rw [chars, List.cons_append, List.cons_append, skipped]
      split
      · next broken => rw [four] at broken; cases broken
      · next read =>
        rw [four] at read
        cases read
        exact further

theorem wanted_plain {c : Char} (wellFormed : (plain c).WellFormed) :
    wanted offset reversed (c :: rest) = wanted (offset + c.utf8Size) (c :: reversed) rest := by
  obtain ⟨notQuote, notBackslash, visible⟩ := wellFormed
  rw [wanted]
  · rw [if_neg (by omega)]
  all_goals grind

theorem wanted_escaped {letter c : Char} (wellFormed : (escaped letter c).WellFormed) :
    wanted offset reversed ('\\' :: letter :: rest) = wanted (offset + 2) (c :: reversed) rest := by
  have other : letter ≠ 'u' := by rintro rfl; cases wellFormed
  rw [wanted]
  · rw [show simpleEscape? letter = some c from wellFormed]
  · simpa using other

theorem wanted_numbered {cs : List Char} :
    wanted offset reversed ('\\' :: 'u' :: cs) =
      (numberedEscape offset cs >>= fun (c, next, after) => wanted next (c :: reversed) after) := by
  rw [wanted]
  split
  · next broken => simp only [broken, bind, Except.bind]
  · next read => simp only [read, bind, Except.bind]

section Numbered

variable {digits : List Char} {code : Nat}

theorem hexFour_numbered (wellFormed : (numbered digits code).WellFormed) :
    hexFour offset (digits ++ rest) = .ok (code, rest) :=
  hexFour_append offset rest wellFormed.1 wellFormed.2

theorem numberedEscape_trailing (wellFormed : (numbered digits code).WellFormed)
    (trailing : 0xDC00 ≤ code ∧ code ≤ 0xDFFF) :
    (numberedEscape offset (digits ++ rest)).toOption = none := by
  simp only [numberedEscape, hexFour_numbered _ _ wellFormed]
  rw [if_pos trailing]
  rfl

theorem numberedEscape_single (wellFormed : (numbered digits code).WellFormed)
    (single : code < 0xD800 ∨ 0xDBFF < code) (notTrailing : ¬ (0xDC00 ≤ code ∧ code ≤ 0xDFFF)) :
    numberedEscape offset (digits ++ rest) = .ok (Char.ofNat code, offset + 6, rest) := by
  simp only [numberedEscape, hexFour_numbered _ _ wellFormed]
  rw [if_neg notTrailing, if_pos single]

/-- A character between two halves of a surrogate pair, or none if the second is no such half. -/
theorem numberedEscape_pair {digits' : List Char} {trail : Nat}
    (wellFormed : (numbered digits code).WellFormed) (wellFormed' : (numbered digits' trail).WellFormed)
    (leading : ¬ (code < 0xD800 ∨ 0xDBFF < code)) (notTrailing : ¬ (0xDC00 ≤ code ∧ code ≤ 0xDFFF)) :
    (numberedEscape offset (digits ++ '\\' :: 'u' :: (digits' ++ rest))).toOption =
      if trail < 0xDC00 ∨ 0xDFFF < trail then none
      else some (Char.ofNat ((code - 0xD800) * 0x400 + (trail - 0xDC00) + 0x10000), offset + 12, rest) := by
  simp only [numberedEscape, hexFour_numbered _ _ wellFormed]
  rw [if_neg notTrailing, if_neg leading]
  simp only [hexFour_numbered _ _ wellFormed']
  split <;> rfl

theorem numberedEscape_unpaired (wellFormed : (numbered digits code).WellFormed)
    (leading : ¬ (code < 0xD800 ∨ 0xDBFF < code)) (notTrailing : ¬ (0xDC00 ≤ code ∧ code ≤ 0xDFFF))
    (unpaired : ∀ more, rest ≠ '\\' :: 'u' :: more) :
    (numberedEscape offset (digits ++ rest)).toOption = none := by
  simp only [numberedEscape, hexFour_numbered _ _ wellFormed]
  rw [if_neg notTrailing, if_neg leading]
  split
  · next more => exact absurd rfl (unpaired more)
  all_goals rfl

end Numbered

theorem wanted_pieces (wellFormed : ∀ piece ∈ pieces, piece.WellFormed) :
    (wanted offset reversed (pieces.flatMap chars ++ '"' :: rest)).toOption.map Text.Ended.content =
      (decode pieces).map fun cs => (reversed.reverse ++ cs, rest) := by
  -- The first piece is read, and then what follows it.
  have step {reversed : List Char} {c : Char} {next : Nat} {pieces : List Piece}
      (further : (wanted next (c :: reversed) (pieces.flatMap chars ++ '"' :: rest)).toOption.map
          Text.Ended.content = (decode pieces).map fun cs => ((c :: reversed).reverse ++ cs, rest)) :
      (wanted next (c :: reversed) (pieces.flatMap chars ++ '"' :: rest)).toOption.map Text.Ended.content =
        ((decode pieces).map (c :: ·)).map fun cs => (reversed.reverse ++ cs, rest) := by
    rw [further, Option.map_map]
    simp [Function.comp_def]
  fun_induction decode pieces generalizing offset reversed with
  | case1 => simp [wanted, Except.toOption, Text.Ended.content]
  | case2 c pieces ih =>
    obtain ⟨head, tail⟩ := List.forall_mem_cons.1 wellFormed
    rw [List.flatMap_cons, chars, List.append_assoc, List.singleton_append, wanted_plain _ _ _ head]
    exact step (ih _ _ tail)
  | case3 letter c pieces ih =>
    obtain ⟨head, tail⟩ := List.forall_mem_cons.1 wellFormed
    rw [List.flatMap_cons, chars, List.append_assoc, List.cons_append, List.singleton_append,
      wanted_escaped _ _ _ head]
    exact step (ih _ _ tail)
  | case4 digits code pieces trailing =>
    obtain ⟨head, -⟩ := List.forall_mem_cons.1 wellFormed
    rw [List.flatMap_cons, chars, List.append_assoc, List.cons_append, List.cons_append, wanted_numbered,
      toOption_bind, numberedEscape_trailing _ _ head trailing]
    rfl
  | case5 digits code pieces notTrailing single ih =>
    obtain ⟨head, tail⟩ := List.forall_mem_cons.1 wellFormed
    rw [List.flatMap_cons, chars, List.append_assoc, List.cons_append, List.cons_append, wanted_numbered,
      numberedEscape_single _ _ head single notTrailing]
    exact step (ih _ _ tail)
  | case6 digits code notTrailing leading digits' trail pieces apart =>
    obtain ⟨head, tail⟩ := List.forall_mem_cons.1 wellFormed
    obtain ⟨second, -⟩ := List.forall_mem_cons.1 tail
    simp only [List.flatMap_cons, chars, List.append_assoc, List.cons_append]
    rw [wanted_numbered, toOption_bind, numberedEscape_pair _ _ head second leading notTrailing, if_pos apart]
    rfl
  | case7 digits code notTrailing leading digits' trail pieces apart pair ih =>
    obtain ⟨head, tail⟩ := List.forall_mem_cons.1 wellFormed
    obtain ⟨second, tail⟩ := List.forall_mem_cons.1 tail
    simp only [List.flatMap_cons, chars, List.append_assoc, List.cons_append]
    rw [wanted_numbered, toOption_bind, numberedEscape_pair _ _ head second leading notTrailing, if_neg apart]
    exact step (ih _ _ tail)
  | case8 digits code pieces notTrailing leading unpaired =>
    obtain ⟨head, tail⟩ := List.forall_mem_cons.1 wellFormed
    rw [List.flatMap_cons, chars, List.append_assoc, List.cons_append, List.cons_append, wanted_numbered,
      toOption_bind, numberedEscape_unpaired _ _ head leading notTrailing]
    · rfl
    · intro more same
      cases pieces with
      | nil => simp at same
      | cons piece pieces =>
        have wellFormed := tail _ List.mem_cons_self
        cases piece with
        | plain c => exact wellFormed.2.1 (List.cons.inj same).1
        | escaped letter c =>
          obtain rfl : letter = 'u' := (List.cons.inj (List.cons.inj same).2).1
          cases wellFormed
        | numbered digits' trail => exact unpaired digits' trail pieces rfl

def ofChar (c : Char) : Piece :=
  match c with
  | '"' => escaped '"' '"'
  | '\\' => escaped '\\' '\\'
  | '\x08' => escaped 'b' '\x08'
  | '\t' => escaped 't' '\t'
  | '\n' => escaped 'n' '\n'
  | '\x0c' => escaped 'f' '\x0c'
  | '\r' => escaped 'r' '\r'
  | c =>
    if c.toNat < 0x20 then
      numbered ['0', '0', Nat.digitChar (c.toNat / 16), Nat.digitChar (c.toNat % 16)] c.toNat
    else plain c

theorem chars_ofChar (c : Char) : (ofChar c).chars = Value.escape c := by
  unfold ofChar
  split
  case h_8 =>
    rw [Value.escape]
    · split_ifs <;> rfl
    all_goals assumption
  all_goals rfl

theorem naturalIn?_control {n : Nat} (control : n < 0x20) :
    naturalIn? 16 ['0', '0', Nat.digitChar (n / 16), Nat.digitChar (n % 16)] = some n := by
  have zero : digitIn? 16 '0' = some 0 := by decide
  have high : digitIn? 16 (Nat.digitChar (n / 16)) = some (n / 16) :=
    digitIn?_digitChar (by omega) (by decide)
  have low : digitIn? 16 (Nat.digitChar (n % 16)) = some (n % 16) :=
    digitIn?_digitChar (by omega) (by decide)
  simp only [naturalIn?, valueIn?, zero, high, low, Option.bind_eq_bind, Option.bind_some,
    Option.some.injEq]
  omega

theorem wellFormed_ofChar (c : Char) : (ofChar c).WellFormed := by
  unfold ofChar
  split
  case h_8 notQuote notBackslash _ _ _ _ _ =>
    split_ifs with control
    · exact ⟨rfl, naturalIn?_control control⟩
    · exact ⟨notQuote, notBackslash, Nat.le_of_not_lt control⟩
  all_goals rfl

theorem decode_cons_ofChar (c : Char) (pieces : List Piece) :
    decode (ofChar c :: pieces) = (decode pieces).map (c :: ·) := by
  unfold ofChar
  split
  case h_8 =>
    split_ifs with control
    · rw [decode.eq_def]
      simp only
      rw [if_neg (by omega), if_pos (by omega), Char.ofNat_toNat]
    · rw [decode]
  all_goals rw [decode]

theorem decode_map_ofChar (chars : List Char) : decode (chars.map ofChar) = some chars := by
  induction chars with
  | nil => rw [List.map_nil, decode]
  | cons c chars ih => rw [List.map_cons, decode_cons_ofChar, ih, Option.map_some]

end Piece

end Texts

section Numerals

open FlowTree.Text (isDigit digitValue decimal wordBound)

theorem stops_nil : Stops [] := nofun

theorem stops_cons {c : Char} {rest : List Char} (ends : continues c = false) : Stops (c :: rest) := by
  rintro _ ⟨⟩
  exact ends

theorem span_digits {digits rest : List Char} (all : ∀ c ∈ digits, isDigit c = true)
    (ends : ∀ c ∈ rest.head?, isDigit c = false) : Numeral.span (digits ++ rest) = (digits, rest) := by
  have none : rest.takeWhile isDigit = [] ∧ rest.dropWhile isDigit = rest := by
    cases rest with
    | nil => exact ⟨rfl, rfl⟩
    | cons c rest =>
      have apart := ends c rfl
      simp [apart]
  rw [Numeral.span, List.takeWhile_append_of_pos all, List.dropWhile_append_of_pos all, none.1, none.2,
    List.append_nil]

theorem Stops.digit {rest : List Char} (stops : Stops rest) : ∀ c ∈ rest.head?, isDigit c = false := by
  intro c head
  have apart := stops c head
  simp only [continues, Bool.or_eq_false_iff] at apart
  exact apart.1.1.1

namespace Numeral

variable {numeral : Numeral} {rest : List Char}

theorem toOption_number (stop : Nat) : (numeral.number stop).toOption = numeral.value? := by
  obtain ⟨negative, whole, fraction, exponent⟩ := numeral
  simp only [value?, number]
  cases exponent with
  | none =>
    simp only
    split
    · split <;> rfl
    · rfl
  | some exponent =>
    obtain ⟨below, digits⟩ := exponent
    cases fraction <;>
    · simp only
      split <;> split <;> rfl

theorem scanExponent_append {exponent : Option (Bool × List Char)} {text : List Char}
    (written : Exponent exponent text) (stops : Stops rest) (negative : Bool) (whole : List Char)
    (fraction : Option (List Char)) (offset : Nat) :
    ∃ stop, scanExponent negative whole fraction offset (text ++ rest) =
      .ok ⟨⟨negative, whole, fraction, exponent⟩, stop, rest⟩ := by
  have signed {digits : List Char} (digital : Digits digits) : span (digits ++ rest) = (digits, rest) :=
    span_digits digital.2 stops.digit
  have digit {c : Char} {digits : List Char} (digital : Digits (c :: digits)) : isDigit c = true :=
    digital.2 c List.mem_cons_self
  cases written with
  | none =>
    refine ⟨offset, ?_⟩
    cases rest with
    | nil => rfl
    | cons c rest =>
      have apart := stops c rfl
      simp only [continues, Bool.or_eq_false_iff, decide_eq_false_iff_not] at apart
      simp [scanExponent, apart]
  | @unsigned mark digits marks digital =>
    refine ⟨offset + 1 + digits.length, ?_⟩
    cases digits with
    | nil => exact absurd rfl digital.1
    | cons c digits =>
      have plus : c ≠ '+' := by rintro rfl; cases digit digital
      have minus : c ≠ '-' := by rintro rfl; cases digit digital
      have cut := signed digital
      rw [List.cons_append] at cut
      rcases marks with rfl | rfl <;> simp [scanExponent, plus, minus, cut]
  | @plus mark digits marks digital =>
    refine ⟨offset + 2 + digits.length, ?_⟩
    cases digits with
    | nil => exact absurd rfl digital.1
    | cons c digits =>
      have cut := signed digital
      rw [List.cons_append] at cut
      rcases marks with rfl | rfl <;> simp [scanExponent, cut]
  | @minus mark digits marks digital =>
    refine ⟨offset + 2 + digits.length, ?_⟩
    cases digits with
    | nil => exact absurd rfl digital.1
    | cons c digits =>
      have cut := signed digital
      rw [List.cons_append] at cut
      rcases marks with rfl | rfl <;> simp [scanExponent, cut]

theorem Exponent.head {exponent : Option (Bool × List Char)} {text : List Char}
    (written : Exponent exponent text) (stops : Stops rest) :
    ∀ c ∈ (text ++ rest).head?, isDigit c = false ∧ c ≠ '.' := by
  have marked {mark : Char} (marks : mark = 'e' ∨ mark = 'E') : isDigit mark = false ∧ mark ≠ '.' := by
    rcases marks with rfl | rfl <;> decide
  cases written with
  | none =>
    intro c head
    have apart := stops c head
    simp only [continues, Bool.or_eq_false_iff, decide_eq_false_iff_not] at apart
    exact apart.1.1
  | unsigned marks | plus marks | minus marks =>
    rintro _ ⟨⟩
    exact marked marks

theorem Fraction.head {fraction : Option (List Char)} {exponent : Option (Bool × List Char)}
    {text more : List Char} (written : Fraction fraction text) (written' : Exponent exponent more)
    (stops : Stops rest) : ∀ c ∈ (text ++ (more ++ rest)).head?, isDigit c = false := by
  cases written with
  | none => exact fun c head => (written'.head stops c head).1
  | some =>
    rintro _ ⟨⟩
    rfl

theorem scanFraction_append {fraction : Option (List Char)} {exponent : Option (Bool × List Char)}
    {text more : List Char} (written : Fraction fraction text) (written' : Exponent exponent more)
    (stops : Stops rest) (negative : Bool) (whole : List Char) (offset : Nat) :
    ∃ stop, scanFraction negative whole offset (text ++ (more ++ rest)) =
      .ok ⟨⟨negative, whole, fraction, exponent⟩, stop, rest⟩ := by
  cases written with
  | none =>
    obtain ⟨stop, scanned⟩ := scanExponent_append written' stops negative whole none offset
    refine ⟨stop, ?_⟩
    rw [List.nil_append, scanFraction]
    · exact scanned
    · intro others same
      exact (written'.head stops '.' (by rw [same]; rfl)).2 rfl
  | @some digits digital =>
    obtain ⟨stop, scanned⟩ :=
      scanExponent_append written' stops negative whole (some digits) (offset + 1 + digits.length)
    have cut : span (digits ++ (more ++ rest)) = (digits, more ++ rest) :=
      span_digits digital.2 fun c head => (written'.head stops c head).1
    refine ⟨stop, ?_⟩
    rw [List.cons_append, scanFraction, cut]
    cases digits with
    | nil => exact absurd rfl digital.1
    | cons c digits => exact scanned

theorem Written.head {text : List Char} (written : numeral.Written text) :
    ∃ c more, text = c :: more ∧ (c = '-' ∨ isDigit c = true) := by
  obtain ⟨digital, -, fractionText, exponentText, -, -, rfl⟩ := written
  obtain ⟨c, more, whole⟩ := List.exists_cons_of_ne_nil digital.1
  cases numeral.negative with
  | true => exact ⟨'-', _, rfl, .inl rfl⟩
  | false =>
    refine ⟨c, more ++ fractionText ++ exponentText, by simp [whole], .inr ?_⟩
    exact digital.2 c (whole ▸ List.mem_cons_self)

theorem Written.scan {text : List Char} (written : numeral.Written text) (stops : Stops rest) (offset : Nat) :
    ∃ stop, Numeral.scan offset (text ++ rest) = .ok ⟨numeral, stop, rest⟩ := by
  obtain ⟨negative, whole, fraction, exponent⟩ := numeral
  obtain ⟨digital, leading, fractionText, exponentText, written, written', rfl⟩ := written
  have unsigned (offset : Nat) :
      ∃ stop, scanWhole negative offset (whole ++ (fractionText ++ (exponentText ++ rest))) =
        .ok ⟨⟨negative, whole, fraction, exponent⟩, stop, rest⟩ := by
    obtain ⟨stop, scanned⟩ :=
      scanFraction_append written written' stops negative whole (offset + whole.length)
    refine ⟨stop, ?_⟩
    rw [scanWhole, span_digits digital.2 (written.head written' stops)]
    match whole with
    | [] => exact absurd rfl digital.1
    | [c] => simpa using scanned
    | c :: d :: more =>
      have positive : c ≠ '0' := by
        rintro rfl
        cases leading _ rfl
      simpa [positive] using scanned
  simp only [List.append_assoc]
  cases negative with
  | true => exact unsigned (offset + 1)
  | false =>
    obtain ⟨stop, scanned⟩ := unsigned offset
    refine ⟨stop, ?_⟩
    simp only [Bool.false_eq_true, if_false, List.nil_append]
    rw [Numeral.scan]
    · exact scanned
    · intro others same
      cases whole with
      | nil => exact digital.1 rfl
      | cons c whole =>
        obtain rfl : c = '-' := (List.cons.inj same).1
        cases digital.2 '-' List.mem_cons_self

end Numeral

theorem toList_decimal (n : Nat) : (decimal n).toList = Nat.toDigits 10 n := Nat.toList_repr

theorem isDigit_of_mem_decimal {n : Nat} {c : Char} (mem : c ∈ (decimal n).toList) : isDigit c = true := by
  rw [toList_decimal] at mem
  have digit := Nat.isDigit_of_mem_toDigits (by decide) (by decide) mem
  simpa [Char.isDigit, isDigit, UInt32.le_iff_toNat_le] using digit

theorem head_decimal {n : Nat} {more : List Char} (zero : (decimal n).toList = '0' :: more) :
    more = [] := by
  have positive : ∀ m, 0 < m → (Nat.toDigits 10 m).head? ≠ some '0' := by
    intro m
    induction m using Nat.strong_induction_on with
    | h m ih =>
      intro positive
      by_cases small : m < 10
      · have digits : ∀ d : Fin 10, 0 < d.val → Nat.digitChar d ≠ '0' := by decide
        rw [Nat.toDigits_of_lt_base small]
        simpa using digits ⟨m, small⟩ positive
      · rw [Nat.toDigits_of_base_le (by omega) (by omega), List.head?_append_of_ne_nil _ Nat.toDigits_ne_nil]
        exact ih (m / 10) (by omega) (by omega)
  rw [toList_decimal] at zero
  rcases Nat.eq_zero_or_pos n with rfl | above
  · exact (List.cons.inj zero).2.symm
  · refine absurd ?_ (positive n above)
    rw [zero]
    rfl

theorem extend_append {value total : Nat} {a b : List Char}
    (whole : Numeral.extend value a = (total, [])) :
    Numeral.extend value (a ++ b) = Numeral.extend total b := by
  induction a generalizing value with
  | nil =>
    cases whole
    rfl
  | cons c a ih =>
    simp only [List.cons_append, Numeral.extend] at whole ⊢
    split at whole
    · next fits =>
      rw [if_pos fits]
      exact ih whole
    · cases whole

theorem extend_toDigits {n : Nat} (small : n < wordBound) :
    Numeral.extend 0 (Nat.toDigits 10 n) = (n, []) := by
  have value : ∀ d, d < 10 → digitValue (Nat.digitChar d) = d := by
    have digits : ∀ d : Fin 10, digitValue (Nat.digitChar d) = d.val := by decide
    exact fun d below => digits ⟨d, below⟩
  induction n using Nat.strong_induction_on with
  | h n ih =>
    by_cases single : n < 10
    · have fits : n < wordBound := small
      simp [Nat.toDigits_of_lt_base single, Numeral.extend, value n single, fits]
    · have last : n / 10 * 10 + n % 10 = n := by omega
      rw [Nat.toDigits_of_base_le (by omega) (by omega),
        extend_append (ih (n / 10) (by omega) (by omega))]
      simp [Numeral.extend, value (n % 10) (by omega), last, small]

theorem written_decimal (n : Nat) : Numeral.Written ⟨false, (decimal n).toList, none, none⟩ (decimal n).toList where
  whole := by
    refine ⟨?_, fun c => isDigit_of_mem_decimal⟩
    rw [toList_decimal]
    exact Nat.toDigits_ne_nil
  leading more zero := head_decimal zero
  parts := ⟨[], [], .none, .none, by simp⟩

theorem value?_decimal {n : Nat} (small : n < wordBound) :
    Numeral.value? ⟨false, (decimal n).toList, none, none⟩ = some (.natural n) := by
  simp [Numeral.value?, Numeral.number, toList_decimal, extend_toDigits small, Except.toOption]

end Numerals

def Token.sign : Token → Sign
  | .openList => .openList
  | .closeList => .closeList
  | .openObject => .openObject
  | .closeObject => .closeObject
  | .comma => .comma
  | .colon => .colon
  | .null => .null
  | .boolean b => .boolean b
  | .number value => .number value.toOption
  | .text value => .text value.toOption
  | .eof => .eof
  | .brokenText _ | .brokenValue _ | .stray => .flaw

def Placed.sign (placed : Placed) : Sign := placed.token.sign

namespace Token

def Reads (word rest : List Char) (sign : Sign) : Prop :=
  ∃ c more, word = c :: more ∧ isSpace c = false ∧
    ∀ start, ∃ stop token, token.sign = sign ∧
      first start c (more ++ rest) = ⟨⟨start, stop, token⟩, some (stop, rest)⟩

variable {word rest : List Char} {sign : Sign}

theorem Reads.fixed {c : Char} {more : List Char} (token : Token) (visible : isSpace c = false)
    (reads : ∀ start, ∃ stop, first start c (more ++ rest) = ⟨⟨start, stop, token⟩, some (stop, rest)⟩) :
    Reads (c :: more) rest token.sign := by
  refine ⟨c, more, rfl, visible, fun start => ?_⟩
  obtain ⟨stop, first⟩ := reads start
  exact ⟨stop, token, rfl, first⟩

theorem reads_quoted {pieces : List Piece} (wellFormed : ∀ piece ∈ pieces, piece.WellFormed) :
    Reads ('"' :: pieces.flatMap Piece.chars ++ ['"']) rest
      (.text ((Piece.decode pieces).map String.ofList)) := by
  refine ⟨'"', pieces.flatMap Piece.chars ++ ['"'], rfl, rfl, fun start => ?_⟩
  obtain ⟨stop, skipped⟩ := Piece.skipped_pieces (start + 1) rest wellFormed
  have wanted := Piece.wanted_pieces (start + 1) [] rest wellFormed
  rw [List.append_assoc, List.singleton_append]
  refine ⟨stop, .text ((Text.wanted (start + 1) [] (pieces.flatMap Piece.chars ++ '"' :: rest)).map fun ended =>
    String.ofList ended.value), congrArg Sign.text ?_, by simp [first, ofText, skipped]⟩
  have content := congrArg (Option.map fun content => String.ofList content.1) wanted
  simpa [Option.map_map, Function.comp_def, toOption_map, Text.Ended.content] using content

theorem reads_numeral {numeral : Numeral} (written : numeral.Written word) (stops : Stops rest) :
    Reads word rest (.number numeral.value?) := by
  obtain ⟨c, more, rfl, starts⟩ := written.head
  refine ⟨c, more, rfl, ?_, fun start => ?_⟩
  · by_contra blank
    simp only [isSpace, Bool.not_eq_false, Bool.or_eq_true, decide_eq_true_eq] at blank
    rcases blank with ((rfl | rfl) | rfl) | rfl <;> simp [FlowTree.Text.isDigit] at starts
  · obtain ⟨stop, scanned⟩ := written.scan stops start
    rw [List.cons_append] at scanned
    refine ⟨stop, .number (numeral.number stop), congrArg Sign.number (Numeral.toOption_number stop), ?_⟩
    unfold first
    split
    case h_11 =>
      have numeric : (decide (c = '-') || FlowTree.Text.isDigit c) = true := by simpa using starts
      rw [if_pos numeric, ofNumeral, scanned]
    all_goals simp [FlowTree.Text.isDigit] at starts

theorem reads_of_lexeme (lexeme : Lexeme word sign) (apart : ∀ n, sign = .number n → Stops rest) :
    Reads word rest sign := by
  cases lexeme with
  | null => exact .fixed .null rfl fun _ => ⟨_, rfl⟩
  | boolean b => cases b <;> exact .fixed (.boolean _) rfl fun _ => ⟨_, rfl⟩
  | numeral written => exact reads_numeral written (apart _ rfl)
  | quoted wellFormed => exact reads_quoted wellFormed
  | openList => exact .fixed .openList rfl fun _ => ⟨_, rfl⟩
  | closeList => exact .fixed .closeList rfl fun _ => ⟨_, rfl⟩
  | openObject => exact .fixed .openObject rfl fun _ => ⟨_, rfl⟩
  | closeObject => exact .fixed .closeObject rfl fun _ => ⟨_, rfl⟩
  | comma => exact .fixed .comma rfl fun _ => ⟨_, rfl⟩
  | colon => exact .fixed .colon rfl fun _ => ⟨_, rfl⟩

end Token

theorem Spells.signs_listFrom {cs : List Char} {signs : List Sign} (spells : Spells cs signs)
    (fuel offset : Nat) (enough : cs.length < fuel) :
    (Token.listFrom fuel offset cs).map Placed.sign = signs ++ [.eof] := by
  induction spells generalizing fuel offset with
  | nil =>
    cases fuel with
    | zero => cases enough
    | succ fuel => rfl
  | blank space _ ih =>
    cases fuel with
    | zero => cases enough
    | succ fuel =>
      rw [Token.listFrom, if_pos space]
      exact ih fuel _ (Nat.lt_of_succ_lt_succ enough)
  | @word word rest sign signs lexeme apart _ ih =>
    obtain ⟨c, more, rfl, visible, reads⟩ := Token.reads_of_lexeme lexeme apart
    cases fuel with
    | zero => cases enough
    | succ fuel =>
      obtain ⟨stop, token, rfl, first⟩ := reads offset
      have left : rest.length < fuel := by
        simp only [List.cons_append, List.length_cons, List.length_append] at enough
        omega
      rw [List.cons_append, Token.listFrom, visible]
      simp only [Bool.false_eq_true, if_false, first, List.map_cons, List.cons_append]
      rw [ih fuel stop left]
      rfl

theorem Spells.signs_list {text : String} {signs : List Sign} (spells : Spells text.toList signs) :
    (Token.list text).map Placed.sign = signs ++ [.eof] :=
  spells.signs_listFrom _ _ (Nat.lt_succ_self _)

theorem Spells.blanks {blanks cs : List Char} {signs : List Sign}
    (spaces : ∀ c ∈ blanks, Token.isSpace c = true) (further : Spells cs signs) :
    Spells (blanks ++ cs) signs := by
  induction blanks with
  | nil => exact further
  | cons c blanks ih =>
    exact .blank (spaces c List.mem_cons_self) (ih fun d mem => spaces d (List.mem_cons_of_mem _ mem))

theorem Spells.mark {word rest : List Char} {sign : Sign} {signs : List Sign} (lexeme : Lexeme word sign)
    (further : Spells rest signs) (other : ∀ n, sign ≠ .number n := by simp) :
    Spells (word ++ rest) (sign :: signs) :=
  .word lexeme (fun n same => absurd same (other n)) further

namespace Value

/-- Induction in which a list or an object has the hypothesis for each of its parts. -/
@[induction_eliminator]
theorem induction {motive : Value → Prop} (null : motive .null) (boolean : ∀ b, motive (.boolean b))
    (number : ∀ n, motive (.number n)) (text : ∀ s, motive (.text s))
    (list : ∀ items, (∀ item ∈ items, motive item) → motive (.list items))
    (object : ∀ members, (∀ member ∈ members, motive member.2) → motive (.object members))
    (value : Value) : motive value :=
  @Value.rec motive (fun items => ∀ item ∈ items, motive item)
    (fun members => ∀ member ∈ members, motive member.2) (fun member => motive member.2)
    null boolean number text list object (fun _ mem => nomatch mem)
    (fun _ _ head tail item mem => by
      rcases List.mem_cons.1 mem with rfl | mem
      · exact head
      · exact tail item mem)
    (fun _ mem => nomatch mem)
    (fun _ _ head tail member mem => by
      rcases List.mem_cons.1 mem with rfl | mem
      · exact head
      · exact tail member mem)
    (fun _ _ value => value) value

/-- All numbers of the value are natural and fit 64 bits. -/
inductive Plain : Value → Prop where
  | null : Plain .null
  | boolean (b : Bool) : Plain (.boolean b)
  | natural {n : Nat} (small : n < FlowTree.Text.wordBound) : Plain (.natural n)
  | text (s : String) : Plain (.text s)
  | list {items : List Value} (each : ∀ item ∈ items, Plain item) : Plain (.list items)
  | object {members : List (String × Value)} (each : ∀ member ∈ members, Plain member.2) :
    Plain (.object members)

mutual

def tree : Value → Tree
  | .null => .null
  | .boolean b => .boolean b
  | .number n => .number (some n)
  | .text s => .text (some s)
  | .list items => .list (trees items)
  | .object members => .object (memberTrees members)

def trees : List Value → List Tree
  | [] => []
  | item :: rest => tree item :: trees rest

def memberTrees : List (String × Value) → List (Option String × Tree)
  | [] => []
  | (name, value) :: rest => (some name, tree value) :: memberTrees rest

end

theorem lexeme_quote (s : String) : Lexeme (quote s) (.text (some s)) := by
  have whole := @Lexeme.quoted (s.toList.map Piece.ofChar) fun piece mem => by
    obtain ⟨c, -, rfl⟩ := List.mem_map.1 mem
    exact Piece.wellFormed_ofChar c
  rw [Piece.decode_map_ofChar, Option.map_some, String.ofList_toList] at whole
  simpa only [quote, List.flatMap_map, Piece.chars_ofChar] using whole

theorem lexeme_natural {n : Nat} (small : n < FlowTree.Text.wordBound) :
    Lexeme (FlowTree.Text.decimal n).toList (.number (some (.natural n))) :=
  value?_decimal small ▸ .numeral (written_decimal n)

open FlowTree.Json.Tree (itemSigns fieldSigns)

def Written (value : Value) (text : List Char) : Prop :=
  ∀ rest signs, Stops rest → Spells rest signs → Spells (text ++ rest) (value.tree.signs ++ signs)

theorem written_compactItems {items : List Value} (each : ∀ item ∈ items, item.Written item.compact)
    {rest : List Char} {signs : List Sign} (stops : Stops rest) (further : Spells rest signs) :
    Spells (compactItems items ++ rest) (itemSigns (trees items) ++ signs) := by
  induction items with
  | nil => exact further
  | cons item items ih =>
    have first := each item List.mem_cons_self
    cases items with
    | nil => exact first rest signs stops further
    | cons next items =>
      have others := ih fun item mem => each item (List.mem_cons_of_mem _ mem)
      have comma := Spells.mark .comma others
      have whole := first _ _ (stops_cons rfl) comma
      simpa [compactItems, trees, itemSigns] using whole

theorem written_compactMembers {members : List (String × Value)}
    (each : ∀ member ∈ members, member.2.Written member.2.compact)
    {rest : List Char} {signs : List Sign} (stops : Stops rest) (further : Spells rest signs) :
    Spells (compactMembers members ++ rest) (fieldSigns (memberTrees members) ++ signs) := by
  induction members with
  | nil => exact further
  | cons member members ih =>
    obtain ⟨name, value⟩ := member
    have first := each (name, value) List.mem_cons_self
    have named {text : List Char} {signs : List Sign} (content : Spells text signs) :
        Spells (quote name ++ ':' :: text) (.text (some name) :: .colon :: signs) :=
      .mark (lexeme_quote name) (.mark .colon content)
    cases members with
    | nil =>
      have whole := named (first rest signs stops further)
      simpa [compactMembers, memberTrees, fieldSigns] using whole
    | cons next members =>
      have others := ih fun member mem => each member (List.mem_cons_of_mem _ mem)
      have comma := Spells.mark .comma others
      have whole := named (first _ _ (stops_cons rfl) comma)
      simpa [compactMembers, memberTrees, fieldSigns] using whole

theorem Plain.written_compact {value : Value} (plain : value.Plain) : value.Written value.compact := by
  induction value with
  | null => exact fun rest signs _ further => .mark .null further
  | boolean b => exact fun rest signs _ further => .mark (.boolean b) further
  | number n =>
    cases plain with
    | natural small =>
      exact fun rest signs stops further => .word (lexeme_natural small) (fun _ _ => stops) further
  | text s => exact fun rest signs _ further => .mark (lexeme_quote s) further
  | list items ih =>
    cases plain with
    | list each =>
      intro rest signs _ further
      have close := Spells.mark .closeList further
      have parts := written_compactItems (fun item mem => ih item mem (each item mem))
        (stops_cons rfl) close
      simpa [compact, tree, Tree.signs] using Spells.mark .openList parts
  | object members ih =>
    cases plain with
    | object each =>
      intro rest signs _ further
      have close := Spells.mark .closeObject further
      have parts := written_compactMembers (fun member mem => ih member mem (each member mem))
        (stops_cons rfl) close
      simpa [compact, tree, Tree.signs] using Spells.mark .openObject parts

theorem isSpace_of_mem_line {level : Nat} {c : Char} (mem : c ∈ line level) : Token.isSpace c = true := by
  rcases List.mem_cons.1 mem with rfl | mem
  · rfl
  · rw [(List.mem_replicate.1 mem).2]
    rfl

theorem spells_line (level : Nat) {rest : List Char} {signs : List Sign} (further : Spells rest signs) :
    Spells (line level ++ rest) signs :=
  .blanks (fun _ => isSpace_of_mem_line) further

theorem stops_line (level : Nat) (rest : List Char) : Stops (line level ++ rest) := stops_cons rfl

theorem written_prettyItems {items : List Value} {level : Nat}
    (each : ∀ item ∈ items, item.Written (item.pretty level))
    {rest : List Char} {signs : List Sign} (stops : Stops rest) (further : Spells rest signs) :
    Spells (prettyItems level items ++ rest) (itemSigns (trees items) ++ signs) := by
  induction items with
  | nil => exact further
  | cons item items ih =>
    have first := each item List.mem_cons_self
    cases items with
    | nil =>
      have whole := spells_line level (first rest signs stops further)
      simpa [prettyItems, trees, itemSigns] using whole
    | cons next items =>
      have others := ih fun item mem => each item (List.mem_cons_of_mem _ mem)
      have comma := Spells.mark .comma others
      have whole := spells_line level (first _ _ (stops_cons rfl) comma)
      simpa [prettyItems, trees, itemSigns] using whole

theorem written_prettyMembers {members : List (String × Value)} {level : Nat}
    (each : ∀ member ∈ members, member.2.Written (member.2.pretty level))
    {rest : List Char} {signs : List Sign} (stops : Stops rest) (further : Spells rest signs) :
    Spells (prettyMembers level members ++ rest) (fieldSigns (memberTrees members) ++ signs) := by
  induction members with
  | nil => exact further
  | cons member members ih =>
    obtain ⟨name, value⟩ := member
    have first := each (name, value) List.mem_cons_self
    have named {text : List Char} {signs : List Sign} (content : Spells text signs) :
        Spells (line level ++ (quote name ++ ':' :: ' ' :: text))
          (.text (some name) :: .colon :: signs) :=
      spells_line level (.mark (lexeme_quote name) (.mark .colon (.blank rfl content)))
    cases members with
    | nil =>
      have whole := named (first rest signs stops further)
      simpa [prettyMembers, memberTrees, fieldSigns] using whole
    | cons next members =>
      have others := ih fun member mem => each member (List.mem_cons_of_mem _ mem)
      have comma := Spells.mark .comma others
      have whole := named (first _ _ (stops_cons rfl) comma)
      simpa [prettyMembers, memberTrees, fieldSigns] using whole

theorem Plain.written_pretty {value : Value} (plain : value.Plain) (level : Nat) :
    value.Written (value.pretty level) := by
  induction value generalizing level with
  | null | boolean | number | text => exact plain.written_compact
  | list items ih =>
    cases items with
    | nil => exact plain.written_compact
    | cons item items =>
      cases plain with
      | list each =>
        intro rest signs _ further
        have close := spells_line level (.mark .closeList further)
        have parts := written_prettyItems (fun item mem => ih item mem (each item mem) (level + 1))
          (stops_line level _) close
        simpa [pretty, tree, Tree.signs] using Spells.mark .openList parts
  | object members ih =>
    cases members with
    | nil => exact plain.written_compact
    | cons member members =>
      cases plain with
      | object each =>
        intro rest signs _ further
        have close := spells_line level (.mark .closeObject further)
        have parts := written_prettyMembers
          (fun member mem => ih member mem (each member mem) (level + 1)) (stops_line level _) close
        simpa [pretty, tree, Tree.signs] using Spells.mark .openObject parts

/-- The texts that are printed for a value: without blanks, with one part per line, and the latter with
the line ended. -/
def printings (value : Value) : List String :=
  [value.toText, value.toPrettyText, value.toPrettyText ++ "\n"]

theorem Plain.spelled_printings {value : Value} (plain : value.Plain) {text : String}
    (printed : text ∈ value.printings) : value.tree.Spelled text := by
  have whole {chars : List Char} (written : value.Written chars) : Spells chars value.tree.signs := by
    simpa using written [] [] stops_nil .nil
  simp only [printings, List.mem_cons, List.not_mem_nil, or_false] at printed
  rcases printed with rfl | rfl | rfl
  · simpa [Tree.Spelled, toText] using whole plain.written_compact
  · simpa [Tree.Spelled, toPrettyText] using whole (plain.written_pretty 0)
  · have ended := plain.written_pretty 0 ['\n'] [] (stops_cons rfl) (.blank rfl .nil)
    simpa [Tree.Spelled, toPrettyText] using ended

end Value

end FlowTree.Json

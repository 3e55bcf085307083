import FlowTree.Proofs.Json.Spelling
import Mathlib.Data.List.TakeWhile

/-! The tokens of a text are its words: a text without a flaw is made of words that stand for what its
tokens stand for. -/

set_option autoImplicit false

namespace FlowTree.Json

open FlowTree.Text (isDigit naturalIn?)

section Texts

variable {offset stop code : Nat} {cs rest : List Char}

theorem Text.eq_of_hexFour (read : Text.hexFour offset cs = .ok (code, rest)) :
    ∃ digits : List Char, cs = digits ++ rest ∧ digits.length = 4 ∧ naturalIn? 16 digits = some code := by
  unfold hexFour at read
  split at read
  · next a b c d after =>
    split at read
    · next found =>
      obtain ⟨rfl, rfl⟩ := Prod.mk.inj (Except.ok.inj read)
      exact ⟨[a, b, c, d], rfl, rfl, found⟩
    · cases read
  · split at read <;> cases read

theorem Text.eq_of_skipped (ended : Text.skipped offset cs = .ok (stop, rest)) :
    ∃ pieces : List Piece, (∀ piece ∈ pieces, piece.WellFormed) ∧
      cs = pieces.flatMap Piece.chars ++ '"' :: rest := by
  -- One more piece in front of those that follow it.
  have step {piece : Piece} {after : List Char} (wellFormed : piece.WellFormed)
      (further : ∃ pieces : List Piece, (∀ piece ∈ pieces, piece.WellFormed) ∧
        after = pieces.flatMap Piece.chars ++ '"' :: rest) :
      ∃ pieces : List Piece, (∀ piece ∈ pieces, piece.WellFormed) ∧
        piece.chars ++ after = pieces.flatMap Piece.chars ++ '"' :: rest := by
    obtain ⟨pieces, each, rfl⟩ := further
    refine ⟨piece :: pieces, List.forall_mem_cons.2 ⟨wellFormed, each⟩, ?_⟩
    rw [List.flatMap_cons, List.append_assoc]
  fun_induction Text.skipped offset cs with
  | case1 | case3 | case5 | case7 | case8 => cases ended
  | case2 offset more =>
    obtain ⟨-, rfl⟩ := Prod.mk.inj (Except.ok.inj ended)
    exact ⟨[], List.forall_mem_nil _, rfl⟩
  | case4 offset more code after read _ ih =>
    obtain ⟨digits, rfl, four, found⟩ := eq_of_hexFour read
    exact @step (.numbered digits code) _ ⟨four, found⟩ (ih ended)
  | case6 offset letter more _ plain escape ih => exact @step (.escaped letter plain) _ escape (ih ended)
  | case9 offset c more quote _ final escape visible ih =>
    have slash : c ≠ '\\' := by
      rintro rfl
      cases more with
      | nil => exact final rfl rfl
      | cons d more => exact escape d more rfl rfl
    exact @step (.plain c) _ ⟨quote, slash, Nat.le_of_not_lt visible⟩ (ih ended)

end Texts

namespace Numeral

variable {negative : Bool} {whole cs rest : List Char} {fraction : Option (List Char)} {offset : Nat}
  {scanned : Scanned}

theorem eq_of_span {digits : List Char} (cut : span cs = (digits, rest)) :
    cs = digits ++ rest ∧ (∀ c ∈ digits, isDigit c = true) ∧ ∀ c ∈ rest.head?, isDigit c = false := by
  obtain ⟨rfl, rfl⟩ := Prod.mk.inj cut
  refine ⟨List.takeWhile_append_dropWhile.symm, fun c mem => List.mem_takeWhile_imp mem, fun c head => ?_⟩
  have stops := List.head?_dropWhile_not isDigit cs
  rw [Option.mem_def.1 head] at stops
  simpa using stops

theorem eq_of_scanExponent (scan : scanExponent negative whole fraction offset cs = .ok scanned)
    (ends : ∀ c ∈ cs.head?, isDigit c = false) :
    ∃ exponent text, Exponent exponent text ∧ cs = text ++ scanned.rest ∧
      scanned.numeral = ⟨negative, whole, fraction, exponent⟩ ∧
      ∀ c ∈ scanned.rest.head?, isDigit c = false := by
  -- The digits of the exponent, after its mark and its sign.
  have signed {below : Bool} {stop : Nat} {cs digits rest : List Char} (some : digits = [] → False)
      (cut : span cs = (digits, rest))
      (scan : Except.ok ⟨⟨negative, whole, fraction, Option.some (below, digits)⟩, stop, rest⟩ =
        (Except.ok scanned : Except Defect Scanned)) :
      ∃ digits, Digits digits ∧ cs = digits ++ scanned.rest ∧
        scanned.numeral = ⟨negative, whole, fraction, Option.some (below, digits)⟩ ∧
        ∀ c ∈ scanned.rest.head?, isDigit c = false := by
    obtain ⟨rfl, digital, stops⟩ := eq_of_span cut
    cases scan
    exact ⟨digits, ⟨some, digital⟩, rfl, rfl, stops⟩
  unfold scanExponent at scan
  split at scan
  case h_3 =>
    cases scan
    exact ⟨none, [], .none, rfl, rfl, ends⟩
  all_goals
    dsimp only at scan
    split at scan
    · split at scan
      · cases scan
      · next some cut =>
        obtain ⟨digits, digital, rfl, same, stops⟩ := signed some cut scan
        exact ⟨_, _, .plus (by decide) digital, rfl, same, stops⟩
    · split at scan
      · cases scan
      · next some cut =>
        obtain ⟨digits, digital, rfl, same, stops⟩ := signed some cut scan
        exact ⟨_, _, .minus (by decide) digital, rfl, same, stops⟩
    · split at scan
      · cases scan
      · next some cut =>
        obtain ⟨digits, digital, rfl, same, stops⟩ := signed some cut scan
        exact ⟨_, _, .unsigned (by decide) digital, rfl, same, stops⟩

theorem eq_of_scanFraction (scan : scanFraction negative whole offset cs = .ok scanned)
    (ends : ∀ c ∈ cs.head?, isDigit c = false) :
    ∃ fraction exponent text more, Fraction fraction text ∧ Exponent exponent more ∧
      cs = text ++ (more ++ scanned.rest) ∧ scanned.numeral = ⟨negative, whole, fraction, exponent⟩ ∧
      ∀ c ∈ scanned.rest.head?, isDigit c = false := by
  unfold scanFraction at scan
  split at scan
  · split at scan
    · cases scan
    · next digits rest some cut =>
      obtain ⟨rfl, digital, stops⟩ := eq_of_span cut
      obtain ⟨exponent, more, written, rfl, same, stops⟩ := eq_of_scanExponent scan stops
      exact ⟨_, exponent, _, more, .some ⟨some, digital⟩, written, rfl, same, stops⟩
  · obtain ⟨exponent, more, written, rfl, same, stops⟩ := eq_of_scanExponent scan ends
    exact ⟨none, exponent, [], more, .none, written, rfl, same, stops⟩

theorem eq_of_scan (scan : Numeral.scan offset cs = .ok scanned) :
    ∃ word, scanned.numeral.Written word ∧ cs = word ++ scanned.rest ∧
      ∀ c ∈ scanned.rest.head?, isDigit c = false := by
  have unsigned {negative : Bool} {offset : Nat} {cs : List Char}
      (scan : scanWhole negative offset cs = .ok scanned) :
      ∃ word, scanned.numeral.Written ((if negative then ['-'] else []) ++ word) ∧
        cs = word ++ scanned.rest ∧ ∀ c ∈ scanned.rest.head?, isDigit c = false := by
    unfold scanWhole at scan
    split at scan
    · cases scan
    · cases scan
    · next digits rest some leading cut =>
      obtain ⟨rfl, digital, stops⟩ := eq_of_span cut
      obtain ⟨fraction, exponent, text, more, written, written', rfl, same, stops⟩ :=
        eq_of_scanFraction scan stops
      refine ⟨digits ++ (text ++ more), ?_, by simp, stops⟩
      rw [same]
      refine ⟨⟨some, digital⟩, ?_, text, more, written, written', by simp⟩
      rintro others rfl
      cases others with
      | nil => rfl
      | cons c others => cases leading c others rfl
  unfold Numeral.scan at scan
  split at scan
  · obtain ⟨word, written, rfl, stops⟩ := unsigned scan
    exact ⟨_, written, rfl, stops⟩
  · obtain ⟨word, written, rfl, stops⟩ := unsigned scan
    exact ⟨_, written, rfl, stops⟩

end Numeral

theorem Token.eq_of_word {offset stop : Nat} {letters cs rest : List Char}
    (read : Token.word offset letters cs = .ok (stop, rest)) : cs = letters ++ rest := by
  induction letters generalizing offset cs with
  | nil =>
    obtain ⟨-, rfl⟩ := Prod.mk.inj (Except.ok.inj read)
    rfl
  | cons want letters ih =>
    cases cs with
    | nil => cases read
    | cons c cs =>
      rw [word] at read
      split at read
      · next same => rw [same, ih read, List.cons_append]
      · cases read

theorem Token.lexeme_of_first {start stop : Nat} {c : Char} {cs rest : List Char} {next : Next}
    (read : first start c cs = next) (passed : next.after = some (stop, rest))
    (sound : next.placed.sign ≠ .flaw) :
    ∃ word sign, Lexeme word sign ∧ c :: cs = word ++ rest ∧
      ∀ n, sign = .number n → ∀ d ∈ rest.head?, isDigit d = false := by
  have lone {c : Char} {token : Token} {sign : Sign} (lexeme : Lexeme [c] sign)
      (read : single start token cs = next) (other : ∀ n, sign ≠ .number n := by simp) :
      ∃ word sign, Lexeme word sign ∧ c :: cs = word ++ rest ∧
        ∀ n, sign = .number n → ∀ d ∈ rest.head?, isDigit d = false := by
    subst read
    obtain ⟨-, rfl⟩ := Prod.mk.inj (Option.some.inj passed)
    exact ⟨[c], sign, lexeme, rfl, fun n same => absurd same (other n)⟩
  have spelled {c : Char} {token : Token} {letters : List Char} {sign : Sign}
      (lexeme : Lexeme (c :: letters) sign) (read : ofWord start token letters cs = next)
      (other : ∀ n, sign ≠ .number n := by simp) :
      ∃ word sign, Lexeme word sign ∧ c :: cs = word ++ rest ∧
        ∀ n, sign = .number n → ∀ d ∈ rest.head?, isDigit d = false := by
    unfold ofWord at read
    split at read
    · next ended =>
      subst read
      obtain ⟨-, rfl⟩ := Prod.mk.inj (Option.some.inj passed)
      refine ⟨c :: letters, sign, lexeme, ?_, fun n same => absurd same (other n)⟩
      rw [eq_of_word ended, List.cons_append]
    · subst read
      cases passed
  unfold first at read
  split at read
  · exact lone .openList read
  · exact lone .closeList read
  · exact lone .openObject read
  · exact lone .closeObject read
  · exact lone .comma read
  · exact lone .colon read
  · exact spelled .null read
  · exact spelled (.boolean true) read
  · exact spelled (.boolean false) read
  · unfold ofText at read
    split at read
    · next ended =>
      subst read
      obtain ⟨-, rfl⟩ := Prod.mk.inj (Option.some.inj passed)
      obtain ⟨pieces, wellFormed, rfl⟩ := Text.eq_of_skipped ended
      exact ⟨_, _, .quoted wellFormed, by simp, fun n same => by cases same⟩
    · dsimp only at read
      split at read <;> subst read <;> cases passed
  · split at read
    · unfold ofNumeral at read
      split at read
      · next scanned scan =>
        subst read
        obtain ⟨-, rfl⟩ := Prod.mk.inj (Option.some.inj passed)
        obtain ⟨word, written, same, ends⟩ := Numeral.eq_of_scan scan
        exact ⟨word, _, .numeral written, same, fun _ _ => ends⟩
      · subst read
        cases passed
    · subst read
      exact absurd rfl sound

theorem Token.first_ne_eof (start : Nat) (c : Char) (cs : List Char) :
    (first start c cs).placed.sign ≠ .eof := by
  unfold first
  split
  case h_10 =>
    unfold ofText
    dsimp only
    split
    · rintro ⟨⟩
    · split <;> rintro ⟨⟩
  case h_11 =>
    split
    · unfold ofNumeral
      split <;> rintro ⟨⟩
    · rintro ⟨⟩
  all_goals
    try unfold ofWord
    try split
    all_goals rintro ⟨⟩

theorem Token.first_of_continues {c : Char} (more : continues c = true) (other : isDigit c = false)
    (start : Nat) (cs : List Char) : (first start c cs).placed.sign = .flaw := by
  have letter : c = '.' ∨ c = 'e' ∨ c = 'E' := by simpa [continues, other, or_assoc] using more
  rcases letter with rfl | rfl | rfl <;> rfl

theorem Token.listFrom_head {fuel offset : Nat} {c : Char} {cs : List Char} (visible : isSpace c = false) :
    ∃ rest, listFrom (fuel + 1) offset (c :: cs) = (first offset c cs).placed :: rest := by
  rw [listFrom, visible, if_neg Bool.false_ne_true]
  dsimp only
  split <;> exact ⟨_, rfl⟩

theorem Token.stops_of_listFrom {fuel offset : Nat} {rest : List Char} {signs more : List Sign}
    (tokens : (listFrom (fuel + 1) offset rest).map Placed.sign = signs ++ .eof :: more)
    (sound : ∀ sign ∈ signs, sign ≠ .flaw ∧ sign ≠ .eof) (ends : ∀ d ∈ rest.head?, isDigit d = false) :
    Stops rest := by
  cases rest with
  | nil => exact stops_nil
  | cons d others =>
    refine stops_cons (Bool.eq_false_iff.2 fun goesOn => ?_)
    have flaw := first_of_continues goesOn (ends d rfl) offset others
    have visible : isSpace d = false := by
      by_contra blank
      simp only [isSpace, Bool.not_eq_false, Bool.or_eq_true, decide_eq_true_eq] at blank
      rcases blank with ((rfl | rfl) | rfl) | rfl <;> cases goesOn
    obtain ⟨after, tokens'⟩ := @listFrom_head fuel offset d others visible
    rw [tokens', List.map_cons, flaw] at tokens
    cases signs with
    | nil => cases (List.cons.inj tokens).1
    | cons sign signs => exact (sound sign List.mem_cons_self).1 (List.cons.inj tokens).1.symm

theorem Token.lexeme_sign {start stop : Nat} {c : Char} {cs rest : List Char}
    (passed : (first start c cs).after = some (stop, rest)) (sound : (first start c cs).placed.sign ≠ .flaw)
    (stops : (∀ d ∈ rest.head?, isDigit d = false) → Stops rest) :
    ∃ more, cs = more ++ rest ∧ Lexeme (c :: more) (first start c cs).placed.sign ∧
      ∀ n, (first start c cs).placed.sign = .number n → Stops rest := by
  obtain ⟨word, sign, lexeme, split, ends⟩ := lexeme_of_first rfl passed sound
  have apart (n : Option Number) (number : sign = .number n) : Stops rest := stops (ends n number)
  obtain ⟨d, more, rfl, -, reads⟩ := reads_of_lexeme lexeme apart
  obtain ⟨rfl, rfl⟩ : c = d ∧ cs = more ++ rest := List.cons.inj split
  obtain ⟨stop, token, rfl, read⟩ := reads start
  rw [read]
  exact ⟨more, rfl, lexeme, apart⟩

/-- A text whose tokens have no flaw and end only at its end is spelled by them. -/
theorem Spells.of_listFrom {fuel offset : Nat} {cs : List Char} {signs more : List Sign}
    (tokens : (Token.listFrom fuel offset cs).map Placed.sign = signs ++ .eof :: more)
    (sound : ∀ sign ∈ signs, sign ≠ .flaw ∧ sign ≠ .eof) (enough : cs.length < fuel) : Spells cs signs := by
  induction fuel generalizing offset cs signs with
  | zero => cases enough
  | succ fuel ih =>
    cases cs with
    | nil =>
      cases signs with
      | nil => exact .nil
      | cons sign signs => exact absurd (List.cons.inj tokens).1.symm (sound sign List.mem_cons_self).2
    | cons c cs =>
      have enough : cs.length < fuel := Nat.lt_of_succ_lt_succ enough
      rw [Token.listFrom] at tokens
      split at tokens
      · next space => exact .blank space (ih tokens sound enough)
      · dsimp only at tokens
        split at tokens
        · next stop rest passed =>
          cases signs with
          | nil => exact absurd (List.cons.inj tokens).1 (Token.first_ne_eof offset c cs)
          | cons sign signs =>
            obtain ⟨rfl, later⟩ :
                (Token.first offset c cs).placed.sign = sign ∧
                  (Token.listFrom fuel stop rest).map Placed.sign = signs ++ .eof :: more :=
              List.cons.inj tokens
            obtain ⟨here, sound'⟩ := List.forall_mem_cons.1 sound
            obtain ⟨word, rfl, lexeme, apart⟩ := Token.lexeme_sign passed here.1 fun ends => by
              cases fuel with
              | zero => cases enough
              | succ fuel => exact Token.stops_of_listFrom later sound' ends
            refine .word lexeme apart (ih later sound' ?_)
            exact Nat.lt_of_le_of_lt (List.length_append ▸ Nat.le_add_left _ _) enough
        · cases signs with
          | nil => exact absurd (List.cons.inj tokens).1 (Token.first_ne_eof offset c cs)
          | cons sign signs => simp at tokens

end FlowTree.Json

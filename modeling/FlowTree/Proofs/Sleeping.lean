import FlowTree.Proofs.Arguments
import FlowTree.Proofs.Timeouts
import Mathlib.Data.List.DropRight
import Mathlib.Data.Nat.Digits.Defs

/-! The unit that sleeps. It reads the number of milliseconds in its first input, accepts exactly the
unsigned decimals of 64 bits, and gives the number that it has slept for in a form that it reads as the
same number. -/

set_option autoImplicit false

namespace FlowTree

namespace Text

section Trim

variable {s : String} {cs : List Char}

/-- A text without the white space at both of its ends. -/
structure Trims (s t : String) : Prop where
  around : ∃ before after, s.toList = before ++ t.toList ++ after ∧
    (∀ c ∈ before, isBlank c = true) ∧ ∀ c ∈ after, isBlank c = true
  first : ∀ c ∈ t.toList.head?, isBlank c = false
  last : ∀ c ∈ t.toList.getLast?, isBlank c = false

theorem trimChars_eq (cs : List Char) : trimChars cs = (cs.dropWhile isBlank).rdropWhile isBlank := rfl

theorem head?_trimChars {c : Char} (first : c ∈ (trimChars cs).head?) : isBlank c = false := by
  -- What is dropped at the end leaves the first character alone, unless it leaves nothing.
  obtain ⟨dropped, split⟩ := List.rdropWhile_prefix isBlank (cs.dropWhile isBlank)
  have head := List.head?_dropWhile_not isBlank cs
  rw [trimChars_eq] at first
  obtain ⟨rest, shape⟩ := List.head?_eq_some_iff.1 first
  rw [← split, shape, List.cons_append, List.head?_cons] at head
  simpa using head

theorem getLast?_trimChars {c : Char} (last : c ∈ (trimChars cs).getLast?) : isBlank c = false := by
  rw [trimChars_eq] at last
  obtain ⟨some, same⟩ := List.mem_getLast?_eq_getLast last
  have kept := List.rdropWhile_last_not isBlank (cs.dropWhile isBlank) some
  rw [← same] at kept
  exact Bool.eq_false_iff.2 kept

theorem trim_trims (s : String) : Trims s (trim s) := by
  have shown : (trim s).toList = trimChars s.toList := by rw [trim, String.toList_ofList]
  refine ⟨⟨s.toList.takeWhile isBlank, (s.toList.dropWhile isBlank).rtakeWhile isBlank, ?_, ?_, ?_⟩,
    fun c first => head?_trimChars (shown ▸ first), fun c last => getLast?_trimChars (shown ▸ last)⟩
  · rw [shown, trimChars_eq, List.append_assoc, List.rdropWhile_append_rtakeWhile,
      List.takeWhile_append_dropWhile]
  · exact fun c mem => List.mem_takeWhile_imp mem
  · exact fun c mem => List.mem_rtakeWhile_imp mem

theorem trim_of_full (full : ∀ c ∈ s.toList, isBlank c = false) : trim s = s := by
  have keeps : s.toList.dropWhile isBlank = s.toList := by
    refine List.dropWhile_eq_self_iff.2 fun some => ?_
    rw [full _ (List.getElem_mem some)]
    exact Bool.false_ne_true
  have kept : s.toList.rdropWhile isBlank = s.toList := by
    refine List.rdropWhile_eq_self_iff.2 fun some => ?_
    rw [full _ (List.getLast_mem some)]
    exact Bool.false_ne_true
  rw [trim, trimChars_eq, keeps, kept, String.ofList_toList]

end Trim

section Unsigned

variable {cs : List Char} {n : Nat}

/-- A text that denotes an unsigned number of 64 bits: one or more ASCII digits, of which any number of
the first ones may be zeros, after at most one plus sign. -/
def Unsigned (text : String) (n : Nat) : Prop :=
  ∃ digits : List Char, (text.toList = digits ∨ text.toList = '+' :: digits) ∧ digits ≠ [] ∧
    (∀ c ∈ digits, '0' ≤ c ∧ c ≤ '9') ∧
    Nat.ofDigits 10 (digits.reverse.map digitValue) = n ∧ n ≤ 2 ^ 64 - 1

theorem isDigit_iff (c : Char) : isDigit c = true ↔ '0' ≤ c ∧ c ≤ '9' := by
  rw [isDigit, Bool.and_eq_true, decide_eq_true_iff, decide_eq_true_iff]
  rfl

theorem value_eq_ofDigits (cs : List Char) : value cs = Nat.ofDigits 10 (cs.reverse.map digitValue) := by
  induction cs using List.reverseRecOn with
  | nil => rfl
  | append_singleton cs c ih =>
    rw [value, valueFrom_concat, ← value, ih, List.reverse_append, List.reverse_singleton,
      List.singleton_append, List.map_cons, Nat.ofDigits_cons, Nat.add_comm]

theorem natural?_eq_some_iff : natural? cs = some n ↔
    cs ≠ [] ∧ (∀ c ∈ cs, '0' ≤ c ∧ c ≤ '9') ∧ Nat.ofDigits 10 (cs.reverse.map digitValue) = n := by
  rw [natural?, Option.ite_none_right_eq_some, Option.some.injEq, value_eq_ofDigits, List.all_eq_true]
  simp only [isDigit_iff, and_assoc]

theorem word?_signed (digits : List Char) :
    word? ('+' :: digits) = (natural? digits).filter (· < wordBound) := by
  simp only [word?]
  cases natural? digits <;> simp [Option.filter]

theorem word?_unsigned (unsigned : ∀ rest, cs = '+' :: rest → False) :
    word? cs = (natural? cs).filter (· < wordBound) := by
  simp only [word?]
  cases natural? cs <;> simp [Option.filter]

theorem word?_eq_some_iff : word? cs = some n ↔
    ∃ digits, (cs = digits ∨ cs = '+' :: digits) ∧ natural? digits = some n ∧ n < wordBound := by
  have bounded (digits : List Char) : (natural? digits).filter (· < wordBound) = some n ↔
      natural? digits = some n ∧ n < wordBound := by
    rw [Option.filter_eq_some_iff, decide_eq_true_iff]
  by_cases signed : ∃ rest, cs = '+' :: rest
  · obtain ⟨rest, rfl⟩ := signed
    rw [word?_signed, bounded]
    constructor
    · exact fun read => ⟨rest, .inr rfl, read⟩
    · rintro ⟨digits, rfl | same, read⟩
      · -- The sign is no digit.
        obtain ⟨-, digits, -⟩ := natural?_eq_some_iff.1 read.1
        exact absurd (digits '+' List.mem_cons_self) (by decide)
      · exact (List.cons.inj same).2 ▸ read
  · rw [word?_unsigned fun rest same => signed ⟨rest, same⟩, bounded]
    constructor
    · exact fun read => ⟨cs, .inl rfl, read⟩
    · rintro ⟨digits, rfl | same, read⟩
      · exact read
      · exact absurd ⟨digits, same⟩ signed

theorem unsigned_iff {text : String} : Unsigned text n ↔ word? text.toList = some n := by
  have bound : n ≤ 2 ^ 64 - 1 ↔ n < wordBound := by
    rw [wordBound]
    omega
  rw [word?_eq_some_iff, Unsigned]
  simp only [natural?_eq_some_iff, bound, and_assoc]

end Unsigned

theorem isBlank_of_isDigit {c : Char} (digit : isDigit c = true) : isBlank c = false := by
  have range := (isDigit_iff c).1 digit
  have low : 48 ≤ c.toNat := range.1
  have high : c.toNat ≤ 57 := range.2
  simp only [isBlank, Bool.or_eq_false_iff, Bool.and_eq_false_iff, decide_eq_false_iff_not]
  omega

theorem trim_decimal (n : Nat) : trim (decimal n) = decimal n :=
  trim_of_full fun _ mem => isBlank_of_isDigit (Json.isDigit_of_mem_decimal mem)

end Text

namespace Builtin

variable {inputs : List String} {n : Nat}

def Accepts (inputs : List String) (n : Nat) : Prop :=
  Builtin.sleep.script inputs = [.delay n, .give (Text.decimal n)]

theorem accepts_iff : Accepts inputs n ↔ Text.Unsigned (Text.trim (inputs.headD "")) n := by
  rw [Text.unsigned_iff, Accepts, script, sleepScript]
  cases read : Text.word? (Text.trim (inputs.headD "")).toList with
  | none => simp
  | some m =>
    simp only [List.cons.injEq, Step.delay.injEq, Option.some.injEq]
    constructor
    · exact And.left
    · rintro rfl
      exact ⟨rfl, rfl, trivial⟩

theorem script_of_refused (refused : ∀ n, ¬ Text.Unsigned (Text.trim (inputs.headD "")) n) :
    Builtin.sleep.script inputs =
      [.fail ("sleep expects milliseconds, got '" ++ Text.trim (inputs.headD "") ++ "'")] := by
  simp only [Text.unsigned_iff, ← Option.eq_none_iff_forall_ne_some] at refused
  rw [script, sleepScript, refused]

/-- What the unit gives is accepted as the same number, whatever inputs follow it. -/
theorem accepts_decimal (accepts : Accepts inputs n) (more : List String) :
    Accepts (Text.decimal n :: more) n := by
  obtain ⟨-, -, -, -, -, small⟩ := accepts_iff.1 accepts
  have below : n < Text.wordBound := by
    rw [Text.wordBound]
    omega
  rw [accepts_iff, List.headD_cons, Text.trim_decimal, Text.unsigned_iff]
  exact Text.word?_decimal below

end Builtin

namespace Registries

def Gives (r : Registries) (handle : Nat) (name : String) (inputs : List String) (limit : Duration)
    (ms : Nat) (answer : Answer) : Prop :=
  (r.invoke handle name inputs limit).2 = answer ∧
    (r.invoke handle name inputs limit).1.clock = r.clock + ms

variable {r : Registries} {handle calls n : Nat} {name : String} {inputs : List String}

theorem gives_refusal (known : r.Knows handle name ⟨.builtin .sleep, calls⟩)
    (refused : ∀ n, ¬ Text.Unsigned (Text.trim (inputs.headD "")) n) (limit : Duration) :
    r.Gives handle name inputs limit 0
      (.error (.failed ("sleep expects milliseconds, got '" ++ Text.trim (inputs.headD "") ++ "'"))) := by
  have timed := invoke_timed known inputs limit
  rw [Work.script, Builtin.script_of_refused refused, Script.timed_of_le (Nat.zero_le _)] at timed
  obtain ⟨clock, answer⟩ := Prod.mk.inj timed
  exact ⟨answer, clock⟩

theorem gives_accepted (known : r.Knows handle name ⟨.builtin .sleep, calls⟩)
    (accepts : Builtin.Accepts inputs n) (limit : UInt64) :
    (n ≤ limit.toNat → r.Gives handle name inputs (.ofMillis limit) n (.ok (Text.decimal n))) ∧
      (limit.toNat < n → r.Gives handle name inputs (.ofMillis limit) limit.toNat
        (.error (.timeout (.ofMillis limit)))) := by
  have timed := invoke_timed known inputs (.ofMillis limit)
  have delay : Script.delay [.delay n, .give (Text.decimal n)] = n := Nat.add_zero n
  have granted := Duration.millisUp_ofMillis limit
  rw [Work.script, accepts] at timed
  constructor
  · intro inTime
    rw [Script.timed_of_le (by rwa [delay, granted]), delay] at timed
    obtain ⟨clock, answer⟩ := Prod.mk.inj timed
    exact ⟨answer, clock⟩
  · intro late
    rw [Script.timed_of_lt (by rwa [delay, granted]), granted] at timed
    obtain ⟨clock, answer⟩ := Prod.mk.inj timed
    exact ⟨answer, clock⟩

theorem builtin_knows_sleep : builtin.Knows 0 "sleep" ⟨.builtin .sleep, 0⟩ :=
  ⟨6, by decide, rfl⟩

end Registries

/-- The unit that sleeps accepts exactly the unsigned decimals of 64 bits, and refuses everything else at
once. It sleeps for the number that it accepts, as long as the call is granted, and gives it back in a
form that it accepts. -/
theorem Builtin.sleep_reads_unsigned (inputs : List String) :
    let raw := Text.trim (inputs.headD "")
    Text.Trims (inputs.headD "") raw ∧ (∀ n, Accepts inputs n ↔ Text.Unsigned raw n) ∧
      (Registries.builtin.clock = 0 ∧ Registries.builtin.Knows 0 "sleep" ⟨.builtin .sleep, 0⟩) ∧
      ∀ (r : Registries) handle name calls, r.Knows handle name ⟨.builtin .sleep, calls⟩ →
        ((∀ n, ¬ Text.Unsigned raw n) → ∀ limit, r.Gives handle name inputs limit 0
          (.error (.failed ("sleep expects milliseconds, got '" ++ raw ++ "'")))) ∧
        ∀ n, Text.Unsigned raw n →
          (∀ limit : UInt64,
            (n ≤ limit.toNat → r.Gives handle name inputs (.ofMillis limit) n (.ok (Text.decimal n))) ∧
            (limit.toNat < n → r.Gives handle name inputs (.ofMillis limit) limit.toNat
              (.error (.timeout (.ofMillis limit))))) ∧
          ∀ more, Accepts (Text.decimal n :: more) n := by
  refine ⟨Text.trim_trims _, fun n => accepts_iff, ⟨rfl, Registries.builtin_knows_sleep⟩,
    fun r handle name calls known => ⟨Registries.gives_refusal known, fun n unsigned => ?_⟩⟩
  have accepts := accepts_iff.2 unsigned
  exact ⟨Registries.gives_accepted known accepts, accepts_decimal accepts⟩

/-- White space, a sign and leading zeros are read over, and a tie goes to the unit. -/
theorem Builtin.sleep_reads_padded :
    let padded := ["\u2003+0042\n", "7"]
    Registries.builtin.Gives 0 "sleep" padded (.ofMillis 42) 42 (.ok "42") ∧
      Registries.builtin.Gives 0 "sleep" padded (.ofMillis 41) 41 (.error (.timeout (.ofMillis 41))) ∧
      Accepts ["42"] 42 ∧
      Registries.builtin.Gives 0 "sleep" ["1_0 "] (.ofMillis 41) 0
        (.error (.failed "sleep expects milliseconds, got '1_0'")) := by
  intro padded
  have unsigned : Text.Unsigned (Text.trim (padded.headD "")) 42 := Text.unsigned_iff.2 (by decide)
  have refused : ∀ n, ¬ Text.Unsigned (Text.trim "1_0 ") n := by
    intro n read
    have none : Text.word? (Text.trim "1_0 ").toList = none := by decide
    cases none.symm.trans (Text.unsigned_iff.1 read)
  obtain ⟨-, -, ⟨-, known⟩, reads⟩ := sleep_reads_unsigned padded
  obtain ⟨-, -, -, others⟩ := sleep_reads_unsigned ["1_0 "]
  obtain ⟨times, again⟩ := (reads _ 0 "sleep" 0 known).2 42 unsigned
  exact ⟨(times 42).1 (by decide), (times 41).2 (by decide), again [],
    (others _ 0 "sleep" 0 known).1 refused (.ofMillis 41)⟩

end FlowTree

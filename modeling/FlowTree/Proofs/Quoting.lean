import FlowTree.Text.Quoted
import FlowTree.Text.Radix
import Mathlib.Data.Nat.Init
import Mathlib.Tactic.SplitIfs

/-! What can be told from a quoted text: which text it quotes, and where it ends. A character is written
as itself, as one letter after a backslash or by its code, and no way of writing is the start of another
one. -/

set_option autoImplicit false

namespace FlowTree.Text

open Function (Injective)

section Digits

variable {base : Nat}

theorem digitIn?_digitChar {d : Nat} (small : d < base) (known : base ≤ 16) :
    digitIn? base (Nat.digitChar d) = some d := by
  have digits : ∀ (base : Fin 17) (d : Fin 16), d.val < base.val →
      digitIn? base (Nat.digitChar d) = some d.val := by decide
  exact digits ⟨base, Nat.lt_succ_of_le known⟩ ⟨d, Nat.lt_of_lt_of_le small known⟩ small

theorem valueIn?_append (base high : Nat) (a b : List Char) :
    valueIn? base high (a ++ b) = (valueIn? base high a).bind (valueIn? base · b) := by
  induction a generalizing high with
  | nil => rfl
  | cons c a ih =>
    rw [List.cons_append, valueIn?, valueIn?]
    cases digitIn? base c with
    | none => rfl
    | some d => exact ih _

theorem valueIn?_toDigits (large : 1 < base) (known : base ≤ 16) (n : Nat) :
    valueIn? base 0 (Nat.toDigits base n) = some n := by
  induction n using Nat.strong_induction_on with
  | h n ih =>
    by_cases small : n < base
    · rw [Nat.toDigits_of_lt_base small, valueIn?, digitIn?_digitChar small known]
      simp [valueIn?]
    · have last : digitIn? base (Nat.digitChar (n % base)) = some (n % base) :=
        digitIn?_digitChar (Nat.mod_lt n (by omega)) known
      have fewer : n / base < n := Nat.div_lt_self (by omega) large
      rw [Nat.toDigits_of_base_le large (Nat.le_of_not_lt small), valueIn?_append, ih (n / base) fewer]
      simp only [Option.bind_some, valueIn?, last, Option.bind_eq_bind, Option.some.injEq]
      exact Nat.div_add_mod n base

theorem toDigits_injective (large : 1 < base) (known : base ≤ 16) : Injective (Nat.toDigits base) := by
  intro m n same
  have value := valueIn?_toDigits large known m
  rw [same, valueIn?_toDigits large known] at value
  exact (Option.some.inj value).symm

theorem decimal_injective : Injective decimal := by
  intro m n same
  have digits : Nat.toDigits 10 m = Nat.toDigits 10 n := by
    rw [← Nat.toList_repr, ← Nat.toList_repr]
    exact congrArg String.toList same
  exact toDigits_injective (by decide) (by decide) digits

theorem digitIn?_of_mem {base high n : Nat} {digits : List Char}
    (number : valueIn? base high digits = some n) {c : Char} (mem : c ∈ digits) :
    ∃ d, digitIn? base c = some d := by
  induction digits generalizing high with
  | nil => cases mem
  | cons first rest ih =>
    obtain ⟨d, digit, further⟩ := Option.bind_eq_some_iff.1 number
    rcases List.mem_cons.1 mem with rfl | mem
    · exact ⟨d, digit⟩
    · exact ih further mem

theorem brace_notMem_hex (n : Nat) : '}' ∉ Nat.toDigits 16 n := by
  intro mem
  obtain ⟨d, digit⟩ := digitIn?_of_mem (valueIn?_toDigits (by decide) (by decide) n) mem
  have none : digitIn? 16 '}' = none := by decide
  rw [none] at digit
  cases digit

end Digits

theorem eq_of_marked {mark : Char} {a b x y : List Char} (before : mark ∉ a) (before' : mark ∉ b)
    (same : a ++ mark :: x = b ++ mark :: y) : a = b ∧ x = y := by
  induction a generalizing b with
  | nil =>
    cases b with
    | nil => exact ⟨rfl, (List.cons.inj same).2⟩
    | cons c b =>
      refine absurd ?_ before'
      exact List.mem_cons.2 (.inl (List.cons.inj same).1)
  | cons c a ih =>
    cases b with
    | nil =>
      refine absurd ?_ before
      exact List.mem_cons.2 (.inl (List.cons.inj same).1.symm)
    | cons d b =>
      obtain ⟨rfl, rest⟩ := List.cons.inj same
      obtain ⟨rfl, rfl⟩ := ih (List.not_mem_of_not_mem_cons before)
        (List.not_mem_of_not_mem_cons before') rest
      exact ⟨rfl, rfl⟩

def letter? : Char → Option Char
  | '0' => some '\x00'
  | 't' => some '\t'
  | 'r' => some '\r'
  | 'n' => some '\n'
  | '"' => some '"'
  | '\\' => some '\\'
  | _ => none

inductive Writes : List Char → Char → Prop where
  | letter (l c : Char) (named : letter? l = some c) : Writes ['\\', l] c
  | code (c : Char) : Writes ('\\' :: 'u' :: '{' :: (Nat.toDigits 16 c.toNat ++ ['}'])) c
  | plain (c : Char) (inside : c ≠ '"') (free : c ≠ '\\') : Writes [c] c

theorem writes_escape (c : Char) : Writes (escape c).toList c := by
  unfold escape
  split_ifs with zero tab back line quote slash hidden
  · exact zero ▸ .letter '0' _ rfl
  · exact tab ▸ .letter 't' _ rfl
  · exact back ▸ .letter 'r' _ rfl
  · exact line ▸ .letter 'n' _ rfl
  · exact quote ▸ .letter '"' _ rfl
  · exact slash ▸ .letter '\\' _ rfl
  · simpa [hex] using Writes.code c
  · simpa using Writes.plain c quote slash

namespace Writes

variable {s t x y : List Char} {c d : Char}

/-- Where two written characters start alike, they are the same and end alike. -/
theorem cancel (first : Writes s c) (second : Writes t d) (same : s ++ x = t ++ y) :
    c = d ∧ x = y := by
  cases first with
  | letter l _ named =>
    cases second with
    | letter l' _ named' =>
      obtain ⟨-, rest⟩ := List.cons.inj same
      obtain ⟨rfl, further⟩ := List.cons.inj rest
      exact ⟨Option.some.inj (named.symm.trans named'), further⟩
    | code =>
      obtain ⟨-, rest⟩ := List.cons.inj same
      obtain ⟨rfl, -⟩ := List.cons.inj rest
      cases named
    | plain _ _ free => exact absurd (List.cons.inj same).1.symm free
  | code =>
    cases second with
    | letter l' _ named' =>
      obtain ⟨-, rest⟩ := List.cons.inj same
      obtain ⟨rfl, -⟩ := List.cons.inj rest
      cases named'
    | code =>
      simp only [List.cons_append, List.append_assoc, List.cons.injEq, true_and] at same
      obtain ⟨digits, rest⟩ := eq_of_marked (brace_notMem_hex _) (brace_notMem_hex _) same
      exact ⟨Char.toNat_inj.1 (toDigits_injective (by decide) (by decide) digits), rest⟩
    | plain _ _ free => exact absurd (List.cons.inj same).1.symm free
  | plain _ _ free =>
    cases second with
    | letter | code => exact absurd (List.cons.inj same).1 free
    | plain => exact List.cons.inj same

theorem ne_quote (writes : Writes s c) : s ++ x ≠ '"' :: y := by
  intro same
  cases writes with
  | letter | code => exact absurd (List.cons.inj same).1 (by decide)
  | plain _ inside => exact inside (List.cons.inj same).1

end Writes

theorem toList_quoted (s : String) :
    (quoted s).toList = '"' :: (s.toList.flatMap fun c => (escape c).toList) ++ ['"'] := by
  simp [quoted, String.toList_join, List.flatMap_map]

/-- A quoted text ends where it does whatever follows it, and shows the text that it quotes. -/
theorem quoted_cancel {s t : String} {x y : List Char}
    (same : (quoted s).toList ++ x = (quoted t).toList ++ y) : s = t ∧ x = y := by
  have cut {a b : List Char}
      (same : (a.flatMap fun c => (escape c).toList) ++ '"' :: x =
        (b.flatMap fun c => (escape c).toList) ++ '"' :: y) : a = b ∧ x = y := by
    induction a generalizing b with
    | nil =>
      cases b with
      | nil => exact ⟨rfl, (List.cons.inj same).2⟩
      | cons d b =>
        rw [List.flatMap_cons, List.append_assoc] at same
        exact absurd same.symm (writes_escape d).ne_quote
    | cons c a ih =>
      rw [List.flatMap_cons, List.append_assoc] at same
      cases b with
      | nil => exact absurd same (writes_escape c).ne_quote
      | cons d b =>
        rw [List.flatMap_cons, List.append_assoc] at same
        obtain ⟨first, rest⟩ := (writes_escape c).cancel (writes_escape d) same
        obtain ⟨eq, further⟩ := ih rest
        exact ⟨by rw [first, eq], further⟩
  simp only [toList_quoted, List.cons_append, List.append_assoc, List.cons.injEq, true_and] at same
  obtain ⟨chars, rest⟩ := cut same
  exact ⟨String.toList_inj.1 chars, rest⟩

theorem intercalate_cons {α : Type} (mark first : List α) (rest : List (List α)) :
    mark.intercalate (first :: rest) = first ++ rest.flatMap (mark ++ ·) := by
  induction rest generalizing first with
  | nil => simp [List.intercalate]
  | cons next rest ih => simp [List.intercalate_cons_cons, ih next]

/-- Commas and blanks between quoted texts do not hide where one of them ends. -/
theorem quotedList_injective : Injective quotedList := by
  have tails {as bs : List String}
      (same : (as.flatMap fun s => [',', ' '] ++ (quoted s).toList) ++ [']'] =
        (bs.flatMap fun s => [',', ' '] ++ (quoted s).toList) ++ [']']) : as = bs := by
    induction as generalizing bs with
    | nil =>
      cases bs with
      | nil => rfl
      | cons b bs => simp at same
    | cons a as ih =>
      cases bs with
      | nil => simp at same
      | cons b bs =>
        simp only [List.flatMap_cons, List.append_assoc, List.append_cancel_left_eq] at same
        obtain ⟨rfl, rest⟩ := quoted_cancel same
        rw [ih rest]
  have shown (items : List String) : (quotedList items).toList =
      '[' :: ([',', ' '].intercalate (items.map fun s => (quoted s).toList) ++ [']']) := by
    simp [quotedList, String.toList_intercalate, Function.comp_def]
  intro as bs same
  have same := congrArg String.toList same
  rw [shown, shown] at same
  have same := (List.cons.inj same).2
  cases as with
  | nil =>
    cases bs with
    | nil => rfl
    | cons b bs =>
      rw [List.map_cons, intercalate_cons, toList_quoted] at same
      simp at same
  | cons a as =>
    cases bs with
    | nil =>
      rw [List.map_cons, intercalate_cons, toList_quoted] at same
      simp at same
    | cons b bs =>
      simp only [List.map_cons, intercalate_cons, List.flatMap_map, List.append_assoc] at same
      obtain ⟨rfl, rest⟩ := quoted_cancel same
      rw [tails rest]

end FlowTree.Text

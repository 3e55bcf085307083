import FlowTree.Store

/-! Definitions as people write them.

A statement is written as a map with at most one of three entries. The type keeps all three
optional, so that a statement with several of them, or with none, is a value that resolution can
judge with its place in the tree. -/

set_option autoImplicit false

namespace FlowTree.Authored

structure Invocation where
  name : String
  arguments : List String := []
  /-- An empty or missing name drops the output. -/
  result : Option String := none
  timeoutMs : Option UInt64 := none
  deriving DecidableEq

structure Statement where
  invocation : Option Invocation := none
  /-- The elements of a sequence. -/
  sequence : Option (List Statement) := none
  /-- The branches of a parallel block. -/
  parallel : Option (List Statement) := none

namespace Statement

/-- Induction in which a statement has the hypothesis for each of its parts. -/
@[induction_eliminator]
theorem induction {motive : Statement → Prop}
    (mk : ∀ invocation sequence parallel,
      (∀ elements, sequence = some elements → ∀ s ∈ elements, motive s) →
      (∀ branches, parallel = some branches → ∀ s ∈ branches, motive s) →
      motive ⟨invocation, sequence, parallel⟩)
    (statement : Statement) : motive statement :=
  @Statement.rec motive
    (fun parts => ∀ list, parts = some list → ∀ s ∈ list, motive s)
    (fun list => ∀ s ∈ list, motive s)
    mk (fun _ impossible => nomatch impossible)
    (fun _ parts _ eq => Option.some.inj eq ▸ parts)
    (fun _ mem => nomatch mem)
    (fun _ _ head tail s mem => by
      rcases List.mem_cons.1 mem with rfl | mem
      · exact head
      · exact tail s mem)
    statement

mutual

def same : Statement → Statement → Bool
  | ⟨i, s, p⟩, ⟨i', s', p'⟩ => decide (i = i') && sameOption s s' && sameOption p p'

def sameOption : Option (List Statement) → Option (List Statement) → Bool
  | none, none => true
  | some as, some bs => sameParts as bs
  | _, _ => false

def sameParts : List Statement → List Statement → Bool
  | [], [] => true
  | a :: as, b :: bs => same a b && sameParts as bs
  | _, _ => false

end

theorem sameParts_iff {as bs : List Statement}
    (parts : ∀ a ∈ as, ∀ b, same a b = true ↔ a = b) : sameParts as bs = true ↔ as = bs := by
  induction as generalizing bs with
  | nil => cases bs <;> simp [sameParts]
  | cons a as ih =>
    cases bs with
    | nil => simp [sameParts]
    | cons b bs =>
      simp [sameParts, parts a List.mem_cons_self,
        ih fun s mem => parts s (List.mem_cons_of_mem _ mem)]

theorem sameOption_iff {as bs : Option (List Statement)}
    (parts : ∀ list, as = some list → ∀ a ∈ list, ∀ b, same a b = true ↔ a = b) :
    sameOption as bs = true ↔ as = bs := by
  cases as with
  | none => cases bs <;> simp [sameOption]
  | some list => cases bs <;> simp [sameOption, sameParts_iff (parts list rfl)]

theorem same_iff (a b : Statement) : same a b = true ↔ a = b := by
  induction a generalizing b with
  | mk i s p hs hp =>
    obtain ⟨i', s', p'⟩ := b
    simp [same, sameOption_iff hs, sameOption_iff hp, and_assoc]

instance : DecidableEq Statement := fun a b => decidable_of_iff _ (same_iff a b)

instance : Inhabited Statement := ⟨{}⟩

/-- The number of entries that are set. A statement that can be resolved sets at most one. -/
def variantCount (s : Statement) : Nat :=
  s.invocation.isSome.toNat + s.sequence.isSome.toNat + s.parallel.isSome.toNat

end Statement

structure Workflow where
  workflowId : Option String := none
  name : Option String := none
  seed : Store := NameMap.empty
  root : Statement := {}
  deriving DecidableEq

end FlowTree.Authored

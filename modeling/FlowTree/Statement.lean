import FlowTree.Duration

/-! The executable statement tree: named calls, sequences, parallel blocks, and statements that do
nothing. A tree is only ever read, so its branches share it. -/

set_option autoImplicit false

namespace FlowTree

structure Invocation where
  name : String
  /-- Names of variables, looked up in order when the call starts. -/
  arguments : List String := []
  /-- The variable that takes the output; without one the output is dropped. -/
  result : Option String := none
  /-- Replaces the default timeout for this call. -/
  timeout : Option Duration := none
  deriving DecidableEq

namespace Invocation

def withArguments (call : Invocation) (names : List String) : Invocation :=
  { call with arguments := names }

def withResult (call : Invocation) (name : String) : Invocation :=
  { call with result := if name = "" then none else some name }

def withTimeout (call : Invocation) (timeout : Duration) : Invocation :=
  { call with timeout := some timeout }

end Invocation

inductive Statement where
  | invocation (call : Invocation)
  /-- One element after another, up to the first failure. -/
  | sequence (elements : List Statement)
  /-- All branches at once; the first failure cancels the others. -/
  | parallel (branches : List Statement)
  | noop

namespace Statement

/-- Induction in which a block has the hypothesis for each of its parts. -/
@[induction_eliminator]
theorem induction {motive : Statement → Prop}
    (invocation : ∀ call, motive (.invocation call))
    (sequence : ∀ elements, (∀ s ∈ elements, motive s) → motive (.sequence elements))
    (parallel : ∀ branches, (∀ s ∈ branches, motive s) → motive (.parallel branches))
    (noop : motive .noop) (statement : Statement) : motive statement :=
  @Statement.rec motive (fun parts => ∀ s ∈ parts, motive s)
    invocation sequence parallel noop (fun _ mem => nomatch mem)
    (fun _ _ head tail s mem => by
      rcases List.mem_cons.1 mem with rfl | mem
      · exact head
      · exact tail s mem)
    statement

mutual

def same : Statement → Statement → Bool
  | .invocation a, .invocation b => decide (a = b)
  | .sequence as, .sequence bs => sameParts as bs
  | .parallel as, .parallel bs => sameParts as bs
  | .noop, .noop => true
  | _, _ => false

def sameParts : List Statement → List Statement → Bool
  | [], [] => true
  | a :: as, b :: bs => same a b && sameParts as bs
  | _, _ => false

end

theorem sameParts_iff {as bs : List Statement}
    (parts : ∀ a ∈ as, ∀ b, same a b = true ↔ a = b) : sameParts as bs = true ↔ as = bs := by
  induction as generalizing bs with
  | nil => cases bs <;> simp [sameParts]
  | cons a as ih =>
    cases bs with
    | nil => simp [sameParts]
    | cons b bs =>
      simp [sameParts, parts a List.mem_cons_self,
        ih fun s mem => parts s (List.mem_cons_of_mem _ mem)]

theorem same_iff (a b : Statement) : same a b = true ↔ a = b := by
  induction a generalizing b with
  | invocation call => cases b <;> simp [same]
  | sequence elements ih => cases b <;> simp [same, sameParts_iff ih]
  | parallel branches ih => cases b <;> simp [same, sameParts_iff ih]
  | noop => cases b <;> simp [same]

instance : DecidableEq Statement := fun a b => decidable_of_iff _ (same_iff a b)

mutual

def invocationCount : Statement → Nat
  | .invocation _ => 1
  | .sequence elements => invocationCounts elements
  | .parallel branches => invocationCounts branches
  | .noop => 0

def invocationCounts : List Statement → Nat
  | [] => 0
  | s :: rest => invocationCount s + invocationCounts rest

end

end Statement

end FlowTree

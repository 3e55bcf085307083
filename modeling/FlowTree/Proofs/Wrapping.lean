import FlowTree.Proofs.Run.Abreast
import FlowTree.Proofs.Run.Lone
import FlowTree.Proofs.Run.Veil

/-! A block with one part is its part. A sequence around a single statement cannot be observed, whatever
the statement does and wherever in a tree it stands. A parallel block around it asks to be polled again
when its branch waits, which can be observed, but not in a tame tree. -/

set_option autoImplicit false

namespace FlowTree

namespace Statement

def modify (change : Statement → Statement) : Statement → Position → Statement
  | s, [] => change s
  | .sequence elements, index :: rest => .sequence (elements.modify index (modify change · rest))
  | .parallel branches, index :: rest => .parallel (branches.modify index (modify change · rest))
  | .invocation call, _ :: _ => .invocation call
  | .noop, _ :: _ => .noop

theorem Milder.modify {change : Statement → Statement} (changed : ∀ s : Statement, s.Milder (change s))
    (root : Statement) (place : Position) : root.Milder (root.modify change place) := by
  induction place generalizing root with
  | nil => cases root <;> exact changed _
  | cons index rest ih =>
    cases root with
    | invocation | noop => exact .refl _
    | sequence elements =>
      refine .sequence fun s mem => ?_
      exact exists_of_forall₂ (forall₂_modify Milder.refl ih index).flip mem
    | parallel branches => exact .parallel (forall₂_modify Milder.refl ih index)

end Statement

namespace Likeness.Statements

variable {setting : Setting} {l : Likeness setting}

theorem modify {change : Statement → Statement} (same : ∀ s, l.Statements s s)
    (changed : ∀ s, l.Statements s (change s)) (root : Statement) (place : Position) :
    l.Statements root (root.modify change place) := by
  induction place generalizing root with
  | nil => cases root <;> exact changed _
  | cons index rest ih =>
    cases root with
    | invocation | noop => exact same _
    | sequence elements => exact .sequence (forall₂_modify same ih index)
    | parallel branches => exact .parallel (forall₂_modify same ih index)

end Likeness.Statements

namespace Workflow

def modify (workflow : Workflow) (change : Statement → Statement) (place : Position) : Workflow :=
  { workflow with root := workflow.root.modify change place }

end Workflow

end FlowTree

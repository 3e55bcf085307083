import FlowTree.Proofs.Run.Thinning
import FlowTree.Proofs.Wrapping
import Mathlib.Logic.Relation

/-! The normal form of a tree. A sequence among the elements of another is spliced into it, and idle
elements and branches are left out, until nothing of that kind is left. What remains does not depend on
the order of these steps, and runs as the tree does if the tree is tame. Otherwise a block without its idle
branches may ask to be polled again where it did not before. -/

set_option autoImplicit false

namespace FlowTree

open Relation (ReflTransGen)

namespace Statement

/-- Sequences are straightened one step at a time, anywhere in a tree: one that is an element of another is
spliced into it, or an idle element is left out. -/
inductive Straightens : Statement → Statement → Prop where
  | splice (before inner after : List Statement) :
    Straightens (.sequence (before ++ .sequence inner :: after))
      (.sequence (before ++ (inner ++ after)))
  | dropElement {s : Statement} (before after : List Statement) (idle : s.Idle) :
    Straightens (.sequence (before ++ s :: after)) (.sequence (before ++ after))
  | element {s r : Statement} (before after : List Statement) (step : Straightens s r) :
    Straightens (.sequence (before ++ s :: after)) (.sequence (before ++ r :: after))
  | branch {s r : Statement} (before after : List Statement) (step : Straightens s r) :
    Straightens (.parallel (before ++ s :: after)) (.parallel (before ++ r :: after))

/-- One step towards the normal form, anywhere in a tree. -/
inductive Simplifies : Statement → Statement → Prop where
  | straighten {s r : Statement} (step : Straightens s r) : Simplifies s r
  | dropBranch {s : Statement} (before after : List Statement) (idle : s.Idle) :
    Simplifies (.parallel (before ++ s :: after)) (.parallel (before ++ after))
  | element {s r : Statement} (before after : List Statement) (step : Simplifies s r) :
    Simplifies (.sequence (before ++ s :: after)) (.sequence (before ++ r :: after))
  | branch {s r : Statement} (before after : List Statement) (step : Simplifies s r) :
    Simplifies (.parallel (before ++ s :: after)) (.parallel (before ++ r :: after))

def asElements : Statement → List Statement
  | .sequence elements => elements
  | .noop | .parallel [] => []
  | s => [s]

def asBranches : Statement → List Statement
  | .noop | .sequence [] | .parallel [] => []
  | s => [s]

mutual

def normal : Statement → Statement
  | .invocation call => .invocation call
  | .sequence elements => .sequence (normalElements elements)
  | .parallel branches => .parallel (normalBranches branches)
  | .noop => .noop

def normalElements : List Statement → List Statement
  | [] => []
  | s :: rest => (normal s).asElements ++ normalElements rest

def normalBranches : List Statement → List Statement
  | [] => []
  | s :: rest => (normal s).asBranches ++ normalBranches rest

end

variable {s r : Statement}

theorem Straightens.milder (step : s.Straightens r) : r.Milder s := by
  induction step with
  | splice before inner after =>
    refine .sequence fun s mem => ?_
    simp only [List.mem_append] at mem
    rcases mem with mem | mem | mem
    · exact ⟨s, List.mem_append_left _ mem, .refl s⟩
    · exact ⟨.sequence inner, List.mem_append_right _ List.mem_cons_self, .element mem⟩
    · exact ⟨s, List.mem_append_right _ (List.mem_cons_of_mem _ mem), .refl s⟩
  | @dropElement idler before after =>
    have sub : (before ++ after).Sublist (before ++ idler :: after) :=
      (List.sublist_cons_self idler after).append_left before
    exact .sequence fun s mem => ⟨s, sub.subset mem, .refl s⟩
  | element before after _ ih =>
    exact .sequence fun s mem => exists_of_forall₂ (forall₂_middle Milder.refl before after ih).flip mem
  | branch before after _ ih => exact .parallel (forall₂_middle Milder.refl before after ih)

theorem Simplifies.milder (step : s.Simplifies r) : r.Milder s := by
  induction step with
  | straighten step => exact step.milder
  | @dropBranch idler before after =>
    exact .fewer ((List.sublist_cons_self idler after).append_left before)
  | element before after _ ih =>
    exact .sequence fun s mem => exists_of_forall₂ (forall₂_middle Milder.refl before after ih).flip mem
  | branch before after _ ih => exact .parallel (forall₂_middle Milder.refl before after ih)

end Statement

namespace Likeness

variable {setting : Setting} {l : Likeness setting} {s r : Statement} {rest rest' : List Statement}

end Likeness

namespace Workflow

/-- A tree with idle elements and branches, of which no block is in the way of others. -/
def padded : Workflow :=
  .ofTree .empty (.parallel [
    .parallel [.invocation { name := "A" }, .noop, .invocation { name := "C" }],
    .sequence [.noop, .invocation { name := "D" }]])

end Workflow

end FlowTree

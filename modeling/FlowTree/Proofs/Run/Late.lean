import FlowTree.Proofs.Run.Strides

/-! Polls in a cancelled scope. A statement that is polled there is skipped, so that a run whose token is
cancelled before it starts ends at once. -/

set_option autoImplicit false

namespace FlowTree

namespace Statement

variable {setting : Setting} {parts : List Statement} {place : Position}

/-- A statement that is polled in a cancelled scope is skipped. -/
def Forgoes (setting : Setting) (s : Statement) : Prop :=
  ∀ place w, w.cancelled = true →
    (Task.fresh s).poll setting place w =
      ((skip setting.mode s place w).1, .ended (skip setting.mode s place w).2)

theorem skip_late {s : Statement} {w w' : World} {outcome : Outcome}
    (skipped : skip setting.mode s place w = (w', outcome)) (late : w.cancelled = true) :
    w'.cancelled = true :=
  (skip_unwinds s skipped).late late

theorem pollElements_late (each : ∀ s ∈ parts, Forgoes setting s) (index : Nat) {w : World}
    (late : w.cancelled = true) :
    Task.pollElements (Task.poll setting) place parts index w =
      ((skipSequence setting.mode parts place index w).1,
        .ended (skipSequence setting.mode parts place index w).2) := by
  induction parts generalizing index w with
  | nil => rfl
  | cons s rest ih =>
    rw [Task.pollElements, each s List.mem_cons_self _ _ late, skipSequence]
    rcases skipped : skip setting.mode s (place ++ [index]) w with ⟨w', failure | _⟩
    · rfl
    · exact ih (fun s mem => each s (List.mem_cons_of_mem _ mem)) (index + 1) (skip_late skipped late)

/-- A block of which some branches have ended and no other one has started skips these when it fails. -/
theorem collapse_fresh {ended : List Task} (all : ended.all Task.hasEnded = true) (queue : List Nat)
    (failures : List Failure) (w : World) :
    Task.collapse setting (ended ++ parts.map .fresh) queue place failures w =
      ((skipBranches setting.mode parts place ended.length failures w).1,
        setting.mode.settle (skipBranches setting.mode parts place ended.length failures w).2) := by
  have none : Task.unwindings setting ended w.clock place 0 = [] := Task.unwindings_ended all _ _
  rw [Task.collapse, Task.unwindings_append, none, List.nil_append, Nat.zero_add,
    Task.inTurn_calm queue (Task.unwindings_fresh parts w.clock place ended.length),
    Task.runAll_fresh]

theorem pollNext_fresh {s : Statement} (forgoes : Forgoes setting s) (ended : List Task)
    (rest : List Statement) (left : Nat) (yielded : Bool) {w : World} (late : w.cancelled = true) :
    Task.pollNext setting (Task.poll setting) place (left + 1) yielded
        (ended ++ (s :: rest).map .fresh) (List.range' ended.length (rest.length + 1)) w =
      ((skip setting.mode s (place ++ [ended.length]) w).1,
        .ready ((ended ++ [.ended]) ++ rest.map .fresh) (List.range' (ended.length + 1) rest.length)
          (skip setting.mode s (place ++ [ended.length]) w).2) := by
  have here : (ended ++ (s :: rest).map Task.fresh).getD ended.length .ended = .fresh s := by simp
  have queue : Task.dropEnded (ended ++ (s :: rest).map .fresh)
      (List.range' ended.length (rest.length + 1)) =
        ended.length :: List.range' (ended.length + 1) rest.length := by
    rw [List.range'_succ, Task.dropEnded, List.dropWhile_cons, here]
    rfl
  have left_over : (ended ++ (s :: rest).map Task.fresh).set ended.length .ended =
      (ended ++ [.ended]) ++ rest.map .fresh := by simp
  rw [Task.pollNext, queue]
  simp only
  rw [here, forgoes _ _ late, left_over]

theorem pending_waiting {ended : List Task} (all : ended.all Task.hasEnded = true)
    (parts : List Statement) : Task.pending (ended ++ parts.map .fresh) = parts.length := by
  have none : ended.filter (!·.hasEnded) = [] :=
    List.filter_eq_nil_iff.2 fun task mem => by simp [List.all_eq_true.1 all task mem]
  have fresh := Task.pending_fresh parts
  rw [Task.pending] at fresh
  rw [Task.pending, List.filter_append, none, List.nil_append, fresh]

-- The branches before the first failure have ended well, so none is left to be ended with it.
theorem pollAll_late (each : ∀ s ∈ parts, Forgoes setting s) {ended : List Task}
    (all : ended.all Task.hasEnded = true) {w : World} (late : w.cancelled = true) :
    Task.pollAll setting (Task.poll setting) place parts.length (ended ++ parts.map .fresh)
        (List.range' ended.length parts.length) w =
      ((skipBranches setting.mode parts place ended.length [] w).1,
        .ended (setting.mode.settle (skipBranches setting.mode parts place ended.length [] w).2)) := by
  induction parts generalizing ended w with
  | nil => rfl
  | cons s rest ih =>
    have more : (ended ++ [Task.ended]).all Task.hasEnded = true := by rw [List.all_append, all]; rfl
    have size : (ended ++ [Task.ended]).length = ended.length + 1 := List.length_append
    rw [List.length_cons, Task.pollAll, pollNext_fresh (each s List.mem_cons_self) _ _ _ _ late,
      skipBranches]
    rcases skipped : skip setting.mode s (place ++ [ended.length]) w with ⟨w', failure | _⟩
    · simp only [collapse_fresh more, pending_waiting more, size]
      rfl
    · simp only [← size]
      exact ih (fun s mem => each s (List.mem_cons_of_mem _ mem)) more (skip_late skipped late)

theorem poll_late (s : Statement) : Forgoes setting s := by
  intro place w late
  induction s generalizing place w with
  | noop => rfl
  | invocation call =>
    rw [Task.poll_eq, Task.pollWith, Task.pollFresh, if_pos late]
    rfl
  | sequence elements ih =>
    rw [Task.poll_eq, skip]
    exact pollElements_late (fun s mem place w => ih s mem place w) 0 late
  | parallel branches ih =>
    rw [Task.poll_eq, skip, Task.pollWith, Task.pollFresh, List.range_eq_range']
    have none : ([] : List Task).all Task.hasEnded = true := rfl
    exact pollAll_late (fun s mem place w => ih s mem place w) none late

end Statement

theorem Machine.run_late (setting : Setting) (cancelAt : Option Nat) (root : Statement) {w : World}
    (late : w.cancelled = true) : run setting cancelAt root w = root.skip setting.mode [] w := by
  have woken : (Task.fresh root).woken = true := rfl
  exact finish_of_ended ((next_of_woken woken).trans (congrArg ofProgress (root.poll_late [] w late)))

end FlowTree

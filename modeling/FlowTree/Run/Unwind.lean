import FlowTree.Run.Task

/-! How statements end whose scope is cancelled. They end in one turn: calls that have not started
are skipped, and calls in flight are dropped, unless they have failed already. -/

set_option autoImplicit false

namespace FlowTree

/-- A block observes a failure of one of its branches after some others. The first one cancels the
branches that remain. -/
def observe (mode : FailureMode) (place : Position) (earlier : List Failure) (remaining : Nat)
    (failure : Failure) (w : World) : World :=
  match earlier, mode with
  | [], _ =>
    let w := w.log ⟨.warn, "parallel branch failed, cancelling siblings",
      [("error", failure.message), ("remaining", Text.decimal remaining)]⟩
    w.emit (.branchFailed place failure remaining)
  | _ :: _, .firstObserved =>
    if failure.isCancelled then w
    else
      let w := w.log ⟨.debug, "discarding later parallel failure", [("error", failure.message)]⟩
      w.emit (.discarded place failure)
  | _ :: _, .aggregate => w

namespace Statement

mutual

def skip (mode : FailureMode) : Statement → Position → World → World × Outcome
  | .noop, _, w => (w, .ok ())
  | .invocation call, place, w => (w.skip place call.name, .error .cancelled)
  | .sequence elements, place, w => skipSequence mode elements place 0 w
  | .parallel branches, place, w =>
    let (w, failures) := skipBranches mode branches place 0 [] w
    (w, mode.settle failures)

/-- Skips elements, of which the first has the given index, up to the first failure. -/
def skipSequence (mode : FailureMode) :
    List Statement → Position → Nat → World → World × Outcome
  | [], _, _, w => (w, .ok ())
  | s :: rest, place, index, w =>
    match skip mode s (place ++ [index]) w with
    | (w, .ok ()) => skipSequence mode rest place (index + 1) w
    | (w, .error failure) => (w, .error failure)

def skipBranches (mode : FailureMode) :
    List Statement → Position → Nat → List Failure → World → World × List Failure
  | [], _, _, failures, w => (w, failures)
  | s :: rest, place, index, failures, w =>
    match skip mode s (place ++ [index]) w with
    | (w, .ok ()) => skipBranches mode rest place (index + 1) failures w
    | (w, .error failure) =>
      skipBranches mode rest place (index + 1) (failures ++ [failure])
        (observe mode place failures rest.length failure w)

end

end Statement

/-- A branch that is to end, and whether one of its timers is due. -/
structure Unwinding where
  index : Nat
  due : Bool
  run : World → World × Outcome

namespace Unwinding

/-- Branches of which a timer is due are in the queue and may have failed already. Up to the last of them
the queue counts; all others are only cancelled, in list order. -/
def inTurn : (queue : List Nat) → List Unwinding → List Unwinding
  | [], branches => branches
  | index :: queue, branches =>
    if branches.any (·.due) then
      branches.filter (·.index == index) ++ inTurn queue (branches.filter (·.index != index))
    else branches

/-- Ends branches one after another, after the failures of others, and gives all failures. -/
def runAll (mode : FailureMode) (place : Position) :
    List Unwinding → List Failure → World → World × List Failure
  | [], failures, w => (w, failures)
  | branch :: rest, failures, w =>
    match branch.run w with
    | (w, .ok ()) => runAll mode place rest failures w
    | (w, .error failure) =>
      runAll mode place rest (failures ++ [failure])
        (observe mode place failures rest.length failure w)

end Unwinding

namespace Task

mutual

def unwind (setting : Setting) : Task → Position → World → World × Outcome
  | .ended, _, w => (w, .ok ())
  | .fresh statement, place, w => statement.skip setting.mode place w
  | .calling call, _, w =>
    let (w, failure) := call.unwind setting w
    (w, .error failure)
  | .sequence current index rest, place, w =>
    match unwind setting current (place ++ [index]) w with
    | (w, .ok ()) => Statement.skipSequence setting.mode rest place (index + 1) w
    | (w, .error failure) => (w, .error failure)
  | .block branches queue _, place, w =>
    let ending := Unwinding.inTurn queue (unwindings setting branches w.clock place 0)
    let (w, failures) := Unwinding.runAll setting.mode place ending [] w
    (w, setting.mode.settle failures)

/-- The branches that have not ended, of which the first has the given index. -/
def unwindings (setting : Setting) : List Task → Nat → Position → Nat → List Unwinding
  | [], _, _, _ => []
  | task :: rest, instant, place, index =>
    let others := unwindings setting rest instant place (index + 1)
    -- What has ended well stays as it is, with what it has written.
    if task.hasEnded then others
    else ⟨index, (task.dueAt instant).isSome, unwind setting task (place ++ [index])⟩ :: others

end

/-- How a block goes on after the failures of some of its branches: all others end, and the block
ends with them. -/
def collapse (setting : Setting) (branches : List Task) (queue : List Nat) (place : Position)
    (failures : List Failure) (w : World) : World × Outcome :=
  let ending := Unwinding.inTurn queue (unwindings setting branches w.clock place 0)
  let (w, failures) := Unwinding.runAll setting.mode place ending failures w
  (w, setting.mode.settle failures)

end Task

end FlowTree

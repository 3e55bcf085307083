import FlowTree.Run.Measure
import FlowTree.Workflow

/-! A run as a machine. A root that asks for it is polled again at once. Time moves only while the root
waits for timers, and then straight to the next one or to the instant at which the caller's token is
cancelled. Every step leaves less work before the root, so every run ends. -/

set_option autoImplicit false

namespace FlowTree

inductive Machine where
  | waiting (w : World) (task : Task)
  | ended (w : World) (outcome : Outcome)

namespace Machine

def ofProgress (state : World × Progress) : Machine :=
  match state with
  | (w, .waiting task) => .waiting w task
  | (w, .ended outcome) => .ended w outcome

def ofOutcome (state : World × Outcome) : Machine :=
  .ended state.1 state.2

def start (root : Statement) (w : World) : Machine :=
  .waiting w (.fresh root)

def cancel (setting : Setting) (w : World) (task : Task) (deadline : Nat) : Machine :=
  let instant := max w.clock deadline
  ofOutcome ((task.wake instant).unwind setting [] { w with clock := instant, cancelled := true })

def pass (setting : Setting) (w : World) (task : Task) (instant : Nat) : Machine :=
  ofProgress ((task.wake instant).poll setting [] { w with clock := instant })

/-- Polls the root once, before which time moves unless the root asks to be polled again. The caller's
token is cancelled at `cancelAt` at the latest. A root that waits for no timer would wait for ever; it is
cancelled. -/
def next (setting : Setting) (cancelAt : Option Nat) (w : World) (task : Task) : Machine :=
  if task.woken then ofProgress (task.poll setting [] w)
  else
    match task.nextInstant with
    | none => cancel setting w task w.clock
    | some instant =>
      match cancelAt with
      | some deadline =>
        if deadline ≤ instant then cancel setting w task deadline else pass setting w task instant
      | none => pass setting w task instant

theorem ofProgress_waiting {state : World × Progress} {w : World} {task : Task}
    (h : ofProgress state = .waiting w task) : state = (w, .waiting task) := by
  unfold ofProgress at h
  split at h <;> simp_all

theorem next_less {setting : Setting} {cancelAt : Option Nat} {w w' : World} {task task' : Task}
    (h : next setting cancelAt w task = .waiting w' task') :
    task'.Less task ∨ task.woken = true ∧ task'.NoMore task := by
  have passed {instant : Nat} (found : task.nextInstant = some instant)
      (h : pass setting w task instant = .waiting w' task') : task'.Less task :=
    (Task.poll_polls (ofProgress_waiting h)).less (w := { w with clock := instant })
      (task.dueAt_nextInstant found)
  unfold next at h
  split at h
  · next woken => exact .inr ⟨woken, (Task.poll_polls (ofProgress_waiting h)).noMore⟩
  · split at h
    · simp [cancel, ofOutcome] at h
    · next found =>
      split at h
      · split at h
        · simp [cancel, ofOutcome] at h
        · exact .inl (passed found h)
      · exact .inl (passed found h)

def finish (setting : Setting) (cancelAt : Option Nat) (w : World) (task : Task) :
    World × Outcome :=
  match _step : next setting cancelAt w task with
  | .ended w outcome => (w, outcome)
  | .waiting w task => finish setting cancelAt w task
termination_by (task.unstarted, task.stepsLeft, task.queued + task.woken.toNat)
decreasing_by
  rcases next_less _step with (fewer | ⟨same, fewer⟩) | ⟨woken, fewer | ⟨same, fewer | ⟨also, fewer⟩⟩⟩
  · exact .left _ _ fewer
  · rw [same]
    exact .right _ (.left _ _ fewer)
  · exact .left _ _ fewer
  · rw [same]
    exact .right _ (.left _ _ fewer)
  · rw [same, also, woken]
    exact .right _ (.right _ (Nat.lt_succ_of_le fewer))

def run (setting : Setting) (cancelAt : Option Nat) (root : Statement) (w : World) :
    World × Outcome :=
  finish setting cancelAt w (.fresh root)

end Machine

/-- When the caller's token is cancelled from outside. -/
structure Cancellation where
  /-- Before the run. -/
  before : Bool := false
  /-- At an instant, in milliseconds since the start. -/
  at? : Option Nat := none
  deriving DecidableEq

structure Run where
  outcome : Outcome
  /-- The store at the end, whether the run succeeds or not. -/
  store : Store
  /-- What happens in the run, in order. -/
  moments : List Moment
  log : List LogEntry
  /-- What the observer is told, in order. -/
  notices : List (String → Event)
  /-- The length of the run in milliseconds. -/
  elapsed : Nat
  /-- The units called on the host so far. -/
  called : List String

def Run.trace (run : Run) : Trace := .ofMoments run.moments

def Run.events (run : Run) (id : String) : List Event := run.notices.map (· id)

namespace Workflow

/-- The world in which a run of the workflow starts, after earlier calls on the same host. -/
def world (workflow : Workflow) (called : List String) (cancelled : Bool) : World :=
  let seed := workflow.seed
  let w : World := { store := seed, called, cancelled }
  let w := w.log ⟨.info, "workflow_started", [("workflow_id", workflow.id),
    ("workflow_name", workflow.name), ("variables", Text.decimal seed.size)]⟩
  let w := w.notify (.workflowStarted · workflow.id)
  w.emit (.workflowStarted workflow.id workflow.name seed.size)

def closing : Outcome → Happening
  | .ok () => .workflowCompleted
  | .error failure => .workflowFailed failure

def conclude (w : World) (outcome : Outcome) : World :=
  let w := w.log (match outcome with
    | .ok () => ⟨.info, "workflow_completed", []⟩
    | .error failure => ⟨.error, "workflow_failed", [("error", failure.message)]⟩)
  let w := w.notify (match outcome with
    | .ok () => .workflowCompleted
    | .error failure => (.workflowFailed · failure.message))
  w.emit (closing outcome)

def close (w : World) (outcome : Outcome) : Run :=
  let w := conclude w outcome
  { outcome
    store := w.store
    moments := w.moments
    log := w.entries.reverse
    notices := w.notices.reverse
    elapsed := w.clock
    called := w.called }

def run (workflow : Workflow) (setting : Setting) (cancellation : Cancellation)
    (called : List String) : Run :=
  let w := workflow.world called cancellation.before
  let (w, outcome) := Machine.run setting cancellation.at? workflow.root w
  close w outcome

def runRepeatedly (workflow : Workflow) (setting : Setting) (cancellation : Cancellation) :
    (times : Nat) → (called : List String) → List Run
  | 0, _ => []
  | times + 1, called =>
    let first := workflow.run setting cancellation called
    first :: runRepeatedly workflow setting cancellation times first.called

end Workflow

end FlowTree

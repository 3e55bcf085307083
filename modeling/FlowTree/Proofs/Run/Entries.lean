import FlowTree.Proofs.Histories
import FlowTree.Run.Schedule
import Mathlib.Algebra.Order.Group.Multiset

/-! What a trace tells: the log entries and the events that its entries stand for, and which calls went
out, which ones have ended, and which ones failed. An observer is told of a failure exactly when a call
fails or is cancelled. -/

set_option autoImplicit false

namespace FlowTree

abbrev CallId := Position × String

namespace LogEntry

def ofHappening : Happening → LogEntry
  | .workflowStarted id name seeds => ⟨.info, "workflow_started",
    [("workflow_id", id), ("workflow_name", name), ("variables", Text.decimal seeds)]⟩
  | .started _ name inputs timeout => ⟨.info, "invocation_started",
    [("invocation", name), ("inputs", Text.quotedList inputs), ("timeout", timeout.text)]⟩
  | .completed _ name result output => ⟨.info, "invocation_completed",
    [("invocation", name), ("result", Text.quotedOption result), ("output", output)]⟩
  | .failed _ name error => ⟨.error, "invocation_failed",
    [("invocation", name), ("error", (Failure.invocation name error).message)]⟩
  | .cancelled _ name _ => ⟨.warn, "invocation cancelled", [("invocation", name)]⟩
  | .skipped _ name =>
    ⟨.debug, "skipping invocation in cancelled scope", [("invocation", name)]⟩
  | .branchFailed _ failure remaining => ⟨.warn, "parallel branch failed, cancelling siblings",
    [("error", failure.message), ("remaining", Text.decimal remaining)]⟩
  | .discarded _ failure =>
    ⟨.debug, "discarding later parallel failure", [("error", failure.message)]⟩
  | .workflowCompleted => ⟨.info, "workflow_completed", []⟩
  | .workflowFailed failure => ⟨.error, "workflow_failed", [("error", failure.message)]⟩

def ofTrace (trace : Trace) : List LogEntry :=
  trace.map ofHappening

end LogEntry

namespace Event

-- Only what is about a call or about the whole run is for the observer.
def ofHappening (executionId : String) : Happening → Option Event
  | .workflowStarted id _ _ => some (.workflowStarted executionId id)
  | .started _ name inputs _ => some (.invocationStarted executionId name inputs)
  | .completed _ name _ output => some (.invocationCompleted executionId name output)
  | .failed _ name error =>
    some (.invocationFailed executionId name (Failure.invocation name error).message)
  | .cancelled _ name _ =>
    some (.invocationFailed executionId name Failure.cancelled.message)
  | .skipped _ _ => none
  | .branchFailed _ _ _ => none
  | .discarded _ _ => none
  | .workflowCompleted => some (.workflowCompleted executionId)
  | .workflowFailed failure => some (.workflowFailed executionId failure.message)

def ofTrace (executionId : String) (trace : Trace) : List Event :=
  trace.filterMap (ofHappening executionId)

end Event

/-- An event tells of an entry, and the events before it of the entries before that. -/
theorem Event.ofTrace_split {id : String} {trace : Trace} {before after : List Event} {event : Event}
    (split : ofTrace id trace = before ++ event :: after) :
    ∃ (earlier : Trace) (h : Happening) (later : Trace), trace = earlier ++ h :: later ∧
      ofTrace id earlier = before ∧ ofHappening id h = some event := by
  obtain ⟨first, rest, rfl, told, tail⟩ := List.filterMap_eq_append_iff.1 split
  obtain ⟨silent, h, later, rfl, none, tells, -⟩ := List.filterMap_eq_cons_iff.1 tail
  refine ⟨first ++ silent, h, later, (List.append_assoc _ _ _).symm, ?_, tells⟩
  rw [ofTrace, List.filterMap_append, told, List.filterMap_eq_nil_iff.2 none, List.append_nil]

namespace Happening

def failure? : Happening → Option Failure
  | .failed _ name error => some (.invocation name error)
  | .cancelled _ _ _ => some .cancelled
  | _ => none

def opened? : Happening → Option CallId
  | .started place name _ _ => some (place, name)
  | _ => none

def closed? : Happening → Option CallId
  | .completed place name _ _ => some (place, name)
  | .failed place name _ => some (place, name)
  | .cancelled place name _ => some (place, name)
  | _ => none

end Happening

theorem Failure.message_invocation_ne (name : String) (error : CallError) :
    (Failure.invocation name error).message ≠ "execution cancelled" := by
  intro same
  have heads := congrArg (fun text => text.toList.head?) same
  simp [Failure.message] at heads

theorem Event.ofHappening_eq_invocationFailed {id name error : String} {happening : Happening} :
    ofHappening id happening = some (.invocationFailed id name error) ↔
      ∃ place failure, happening.closed? = some (place, name) ∧
        happening.failure? = some failure ∧ failure.message = error := by
  cases happening <;>
    simp [ofHappening, Happening.closed?, Happening.failure?, eq_comm]

theorem Happening.failure?_eq_none (id : String) {happening : Happening} :
    happening.failure? = none ↔
      ∀ name error, Event.ofHappening id happening ≠ some (.invocationFailed id name error) := by
  cases happening <;> simp [Event.ofHappening, failure?]

namespace Trace

def faults (trace : Trace) : List Failure := trace.filterMap Happening.failure?

def opened (trace : Trace) : Multiset CallId := ↑(trace.filterMap Happening.opened?)

def closed (trace : Trace) : Multiset CallId := ↑(trace.filterMap Happening.closed?)

def inFlight (trace : Trace) : Multiset CallId := trace.opened - trace.closed

theorem ofMoments_append (before after : List Moment) :
    ofMoments (before ++ after) = ofMoments before ++ ofMoments after := List.map_append

variable (a b : Trace)

theorem faults_append : (a ++ b).faults = a.faults ++ b.faults := List.filterMap_append

theorem opened_append : (a ++ b).opened = a.opened + b.opened := by
  rw [opened, List.filterMap_append, ← Multiset.coe_add]
  rfl

theorem closed_append : (a ++ b).closed = a.closed + b.closed := by
  rw [closed, List.filterMap_append, ← Multiset.coe_add]
  rfl

variable {a b}

/-- The calls in flight are those that end later, if none goes out later and all end. -/
theorem inFlight_eq_closed (balanced : (a ++ b).opened = (a ++ b).closed) (none : b.opened = 0) :
    a.inFlight = b.closed := by
  rw [opened_append, closed_append, none, add_zero] at balanced
  rw [inFlight, balanced, add_tsub_cancel_left]

end Trace

namespace World

def trace (w : World) : Trace := .ofMoments w.moments

theorem moments_write (w : World) (result : Option String) (output : String) :
    (w.write result output).moments = w.moments := by
  cases result <;> rfl

theorem moments_emit (w : World) (happening : Happening) :
    (w.emit happening).moments = w.moments ++ [⟨w.toScene, happening⟩] := List.reverse_cons

theorem trace_append {w w' : World} {rest : List Moment}
    (grown : w'.moments = w.moments ++ rest) : w'.trace = w.trace ++ Trace.ofMoments rest :=
  (congrArg Trace.ofMoments grown).trans (Trace.ofMoments_append _ _)

theorem trace_emit (w : World) (happening : Happening) :
    (w.emit happening).trace = w.trace ++ [happening] := by
  rw [trace, moments_emit, Trace.ofMoments_append]
  rfl

/-- A view of the trace does not change by an entry that it does not show. -/
theorem filterMap_emit {α : Type} {view : Happening → Option α} (w : World) {happening : Happening}
    (silent : view happening = none) :
    (w.emit happening).trace.filterMap view = w.trace.filterMap view := by
  rw [trace_emit, List.filterMap_append, List.filterMap_cons_none silent]
  exact List.append_nil _

theorem opened_emit (w : World) {happening : Happening} (opens : happening.opened? = none) :
    (w.emit happening).trace.opened = w.trace.opened :=
  congrArg Multiset.ofList (w.filterMap_emit opens)

theorem closed_emit (w : World) {happening : Happening} (ends : happening.closed? = none) :
    (w.emit happening).trace.closed = w.trace.closed :=
  congrArg Multiset.ofList (w.filterMap_emit ends)

theorem trace_write (w : World) (result : Option String) (output : String) :
    (w.write result output).trace = w.trace := by
  rw [trace, moments_write]
  rfl

end World

namespace Call

theorem moments_sent (setting : Setting) (place : Position) (invocation : Invocation) (w : World) :
    (sent setting place invocation w).moments = w.moments ++ [⟨w.toScene,
      .started place invocation.name (w.inputs invocation)
        (invocation.timeout.getD setting.timeout)⟩] :=
  w.moments_emit _

theorem trace_sent (setting : Setting) (place : Position) (invocation : Invocation) (w : World) :
    (sent setting place invocation w).trace = w.trace ++ [.started place invocation.name
      (w.inputs invocation) (invocation.timeout.getD setting.timeout)] :=
  w.trace_emit _

theorem moments_complete (call : Call) (w : World) (output : String) :
    (call.complete w output).moments = w.moments ++ [⟨(w.write call.result output).toScene,
      .completed call.place call.name call.result output⟩] := by
  rw [← w.moments_write call.result output]
  exact (w.write call.result output).moments_emit _

theorem store_complete (call : Call) (w : World) (output : String) :
    (call.complete w output).store = (w.write call.result output).store := rfl

theorem trace_complete (call : Call) (w : World) (output : String) :
    (call.complete w output).trace =
      w.trace ++ [.completed call.place call.name call.result output] :=
  World.trace_append (call.moments_complete w output)

end Call

namespace Workflow

theorem close_moments (w : World) (outcome : Outcome) :
    (close w outcome).moments = w.moments ++ [⟨w.toScene, closing outcome⟩] :=
  w.moments_emit (closing outcome)

theorem close_trace (w : World) (outcome : Outcome) :
    (close w outcome).trace = w.trace ++ [closing outcome] := w.trace_emit (closing outcome)

end Workflow

namespace Run

/-- The first moment of a run at which an observer is told that a call failed, and what comes before
it and after it. -/
structure FirstFailure (run : Run) (id : String) (before : List Moment) (first : Moment)
    (after : List Moment) : Prop where
  split : run.moments = before ++ first :: after
  fails : ∃ name error,
    Event.ofHappening id first.happening = some (.invocationFailed id name error)
  earliest : ∀ m ∈ before, ∀ name error,
    Event.ofHappening id m.happening ≠ some (.invocationFailed id name error)

namespace FirstFailure

variable {run : Run} {id : String} {before after : List Moment} {first : Moment}

theorem failing (found : run.FirstFailure id before first after) :
    first.happening.failure? ≠ none := by
  obtain ⟨name, error, told⟩ := found.fails
  exact fun none => (Happening.failure?_eq_none id).1 none name error told

/-- The first failure that an observer is told of is the first one of the trace. -/
theorem faults (found : run.FirstFailure id before first after) :
    ∃ name failure, first.happening.failure? = some failure ∧
      Event.ofHappening id first.happening = some (.invocationFailed id name failure.message) ∧
      run.trace.faults = failure :: Trace.faults (.ofMoments after) := by
  obtain ⟨name, error, told⟩ := found.fails
  obtain ⟨place, failure, -, fails, rfl⟩ := Event.ofHappening_eq_invocationFailed.1 told
  have clean : Trace.faults (.ofMoments before) = [] := by
    refine List.filterMap_eq_nil_iff.2 fun h mem => ?_
    obtain ⟨m, here, rfl⟩ := List.mem_map.1 mem
    exact (Happening.failure?_eq_none id).2 (found.earliest m here)
  refine ⟨name, failure, fails, told, ?_⟩
  rw [trace, found.split, Trace.ofMoments_append, Trace.faults_append, clean, List.nil_append]
  exact List.filterMap_cons_some fails

-- The entry that closes a run tells of no call, so something follows the first failure.
theorem before_closing {w : World} {outcome : Outcome}
    (found : (Workflow.close w outcome).FirstFailure id before first after) :
    ∃ last, after = last ++ [⟨w.toScene, Workflow.closing outcome⟩] ∧
      w.moments = before ++ first :: last := by
  have split := (Workflow.close_moments w outcome).symm.trans found.split
  rcases split_concat split with ⟨-, rfl, -⟩ | inside
  · refine absurd ?_ found.failing
    cases outcome <;> rfl
  · exact inside

end FirstFailure

-- No failure of a call is kept from the observer.
theorem faults_eq_nil {trace : Trace} (id : String)
    (none : ∀ name error, .invocationFailed id name error ∉ Event.ofTrace id trace) :
    trace.faults = [] := by
  refine List.filterMap_eq_nil_iff.2 fun h mem => ?_
  refine (Happening.failure?_eq_none id).2 fun name error told => ?_
  exact none name error (List.mem_filterMap.2 ⟨h, mem, told⟩)

end Run

end FlowTree

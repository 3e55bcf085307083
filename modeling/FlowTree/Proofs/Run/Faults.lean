import FlowTree.Proofs.Run.Entries
import FlowTree.Proofs.Run.Ticks

/-! What a run adds to the failures of its trace: a call adds the failure it ends with, and a block that
observes failures adds none. -/

set_option autoImplicit false

namespace FlowTree

def Progress.fault : Progress → List Failure
  | .ended (.error failure) => [failure]
  | _ => []

namespace World

variable {w w' : World}

theorem faults_emit (w : World) (happening : Happening) :
    (w.emit happening).trace.faults = w.trace.faults ++ happening.failure?.toList := by
  rw [trace_emit, Trace.faults_append]
  cases clean : happening.failure? <;> simp [Trace.faults, clean]

theorem faults_emit_of_none (w : World) {happening : Happening} (clean : happening.failure? = none) :
    (w.emit happening).trace.faults = w.trace.faults := by
  rw [faults_emit, clean, Option.toList_none, List.append_nil]

theorem Stirs.trace (stirs : w.Stirs w') : w'.trace = w.trace := by
  cases stirs
  rfl

theorem Stirs.live (stirs : w.Stirs w') (live : w'.cancelled = false) : w.cancelled = false := by
  cases stirs with
  | intro timers cancels => exact (Bool.or_eq_false_iff.1 live).1

theorem faults_skip (w : World) (place : Position) (name : String) :
    (w.skip place name).trace.faults = w.trace.faults :=
  faults_emit_of_none (w.log _) rfl

theorem faults_observe (mode : FailureMode) (place : Position) (earlier : List Failure)
    (remaining : Nat) (failure : Failure) (w : World) :
    (observe mode place earlier remaining failure w).trace.faults = w.trace.faults := by
  rcases observe_notes mode place earlier remaining failure w with same | notes
  · rw [same]
  · obtain ⟨mid, entry, tells, eq, noted⟩ := notes.emits
    rw [eq, ← (Stirs.of_tells tells).trace]
    cases noted <;> exact faults_emit_of_none mid rfl

end World

namespace Call

variable {setting : Setting} {call : Call} {w w' : World}

theorem FailsBy.failure? {entry : Happening} {failure : Failure} (fails : call.FailsBy entry failure) :
    entry.failure? = some failure := by
  cases fails <;> rfl

theorem FailsBy.faults {entry : Happening} {failure : Failure} (fails : call.FailsBy entry failure)
    (w : World) : (w.emit entry).trace.faults = w.trace.faults ++ [failure] := by
  rw [World.faults_emit, fails.failure?]
  rfl

theorem Lands.faults {state : Call ⊕ Outcome} (lands : call.Lands w w' state) :
    w'.trace.faults = w.trace.faults ++ (Progress.ofCall state).fault := by
  cases lands with
  | asleep same live => exact (List.append_nil _).symm
  | completed output live =>
    rw [trace_complete, Trace.faults_append]
    rfl
  | failed fails => exact fails.faults w

theorem Lands.token {state : Call ⊕ Outcome} (lands : call.Lands w w' state)
    (fine : (Progress.ofCall state).fault = []) : w.cancelled = false ∧ w'.cancelled = false := by
  cases lands with
  | asleep same live => exact ⟨live, live⟩
  | completed output live =>
    refine ⟨live, ?_⟩
    unfold complete World.write
    split <;> exact live
  | failed fails => cases fine

theorem start_faults {place : Position} {invocation : Invocation} {state : Call ⊕ Outcome}
    (started : start setting place invocation w = (w', state)) :
    w'.trace.faults = w.trace.faults ++ (Progress.ofCall state).fault := by
  obtain ⟨called, mid, stirs, lands⟩ := start_lands started
  -- Whether the host counts the call does not show in the trace.
  have opened : (sent setting place invocation w).trace.faults = w.trace.faults :=
    World.faults_emit_of_none w rfl
  rw [lands.faults, stirs.trace]
  exact congrArg (· ++ _) opened

theorem resume_faults {state : Call ⊕ Outcome} (resumed : call.resume setting w = (w', state)) :
    w'.trace.faults = w.trace.faults ++ (Progress.ofCall state).fault := by
  obtain ⟨mid, stirs, lands⟩ := resume_lands resumed
  rw [lands.faults, stirs.trace]

theorem unwind_faults {failure : Failure} (unwound : call.unwind setting w = (w', failure)) :
    w'.trace.faults = w.trace.faults ++ [failure] := by
  obtain ⟨mid, entry, stirs, rfl, fails⟩ := unwind_fails unwound
  rw [fails.faults, stirs.trace]

end Call

theorem Workflow.close_faults (w : World) (outcome : Outcome) :
    (close w outcome).trace.faults = w.trace.faults := by
  rw [close_trace, Trace.faults_append]
  cases outcome <;> exact List.append_nil _

end FlowTree

import FlowTree.Proofs.Run.Entries
import FlowTree.Proofs.Run.Strides

/-! What is told of a run. At each of its exits a run tells the log and the observer on their own, and
puts down what happened; the log and the events of a whole run tell of just what happened in it. -/

set_option autoImplicit false

namespace FlowTree

/-- The log and the observer have been told of all that has happened, and of nothing else. -/
structure World.Recorded (w : World) : Prop where
  entries : w.entries.reverse = LogEntry.ofTrace w.trace
  notices : ∀ id, (w.notices.reverse.map fun notice => notice id) = Event.ofTrace id w.trace

namespace World.Recorded

variable {w w' : World} {happening : Happening} {entry : LogEntry} {notice : String → Event}

theorem logged (recorded : w.Recorded) (logs : LogEntry.ofHappening happening = entry) :
    (entry :: w.entries).reverse = LogEntry.ofTrace (w.trace ++ [happening]) := by
  rw [List.reverse_cons, recorded.entries, ← logs, LogEntry.ofTrace, LogEntry.ofTrace,
    List.map_append]
  rfl

theorem quiet (recorded : w.Recorded) (logs : LogEntry.ofHappening happening = entry)
    (silent : ∀ id, Event.ofHappening id happening = none) :
    ((w.log entry).emit happening).Recorded := by
  constructor
  · rw [trace_emit]
    exact recorded.logged logs
  · intro id
    rw [trace_emit, Event.ofTrace, List.filterMap_append, List.filterMap_cons_none (silent id)]
    exact (recorded.notices id).trans (List.append_nil _).symm

theorem told (recorded : w.Recorded) (logs : LogEntry.ofHappening happening = entry)
    (tells : ∀ id, Event.ofHappening id happening = some (notice id)) :
    (((w.log entry).notify notice).emit happening).Recorded := by
  constructor
  · rw [trace_emit]
    exact recorded.logged logs
  · intro id
    rw [trace_emit, Event.ofTrace, List.filterMap_append, List.filterMap_cons_some (tells id)]
    refine (congrArg (List.map _) List.reverse_cons).trans ?_
    rw [List.map_append]
    exact congrArg (· ++ [notice id]) (recorded.notices id)

theorem write (recorded : w.Recorded) (result : Option String) (output : String) :
    (w.write result output).Recorded := by
  constructor
  · rw [trace_write]
    cases result <;> exact recorded.entries
  · rw [trace_write]
    cases result <;> exact recorded.notices

theorem skip (recorded : w.Recorded) (place : Position) (name : String) :
    (w.skip place name).Recorded := recorded.quiet rfl fun _ => rfl

theorem notes (recorded : w.Recorded) (notes : w.Notes w') : w'.Recorded := by
  cases notes with
  | branchFailed => exact recorded.quiet rfl fun _ => rfl
  | discarded => exact recorded.quiet rfl fun _ => rfl

theorem conclude (recorded : w.Recorded) (outcome : Outcome) :
    (Workflow.conclude w outcome).Recorded := by
  cases outcome with
  | ok => exact recorded.told rfl fun _ => rfl
  | error failure => exact recorded.told rfl fun _ => rfl

end World.Recorded

namespace Call

variable {setting : Setting} {call : Call} {w w' : World} {reply : Reply} {state : Call ⊕ Outcome}

theorem complete_recorded (recorded : w.Recorded) (call : Call) (output : String) :
    (call.complete w output).Recorded :=
  (recorded.write call.result output).told rfl fun _ => rfl

theorem fail_recorded (recorded : w.Recorded) (call : Call) (error : CallError) :
    (call.fail w error).1.Recorded := recorded.told rfl fun _ => rfl

theorem drop_recorded (recorded : w.Recorded) (call : Call) (abandoned : Bool) :
    (call.drop w abandoned).1.Recorded := recorded.told rfl fun _ => rfl

theorem sent_recorded (recorded : w.Recorded) (setting : Setting) (place : Position)
    (invocation : Invocation) : (sent setting place invocation w).Recorded :=
  recorded.told rfl fun _ => rfl

theorem advance_recorded (recorded : w.Recorded) (call : Call) (steps : Script) :
    (call.advance setting w steps).1.Recorded := by
  unfold advance
  split
  next cancels standing _ =>
    cases standing with
    | answered answer => exact ⟨recorded.entries, recorded.notices⟩
    | asleep ms rest =>
      simp only
      split <;> exact ⟨recorded.entries, recorded.notices⟩

theorem poll_recorded (recorded : w.Recorded) (call : Call) :
    (call.poll setting w).1.Recorded := by
  unfold poll
  split
  · exact advance_recorded recorded call call.rest
  · exact recorded

theorem dropReply_recorded (recorded : w.Recorded) (call : Call) (reply : Reply) :
    (call.dropReply w reply).1.Recorded := by
  cases reply with
  | answered answer =>
    cases answer with
    | error error => exact fail_recorded recorded call error
    | ok output => exact drop_recorded recorded call false
  | expired => exact fail_recorded recorded call _
  | asleep next => exact drop_recorded recorded call true

theorem takeReply_recorded (recorded : w.Recorded) (taken : call.takeReply w reply = (w', state)) :
    w'.Recorded := by
  unfold takeReply at taken
  split at taken
  · cases taken
    exact dropReply_recorded recorded call reply
  · split at taken
    · cases taken
      exact complete_recorded recorded call _
    · cases taken
      exact fail_recorded recorded call _
    · cases taken
      exact fail_recorded recorded call _
    · cases taken
      exact recorded

theorem start_recorded (recorded : w.Recorded) {place : Position} {invocation : Invocation}
    (started : start setting place invocation w = (w', state)) : w'.Recorded := by
  have out := sent_recorded recorded setting place invocation
  unfold start at started
  simp only at started
  split at started
  · exact takeReply_recorded out started
  · have counted : World.Recorded
        { sent setting place invocation w with called := invocation.name :: w.called } :=
      ⟨out.entries, out.notices⟩
    exact takeReply_recorded (advance_recorded counted _ _) started

theorem resume_recorded (recorded : w.Recorded) (resumed : call.resume setting w = (w', state)) :
    w'.Recorded :=
  takeReply_recorded (poll_recorded recorded call) resumed

theorem unwind_recorded (recorded : w.Recorded) {failure : Failure}
    (unwound : call.unwind setting w = (w', failure)) : w'.Recorded := by
  have polled : (call.poll setting w).1.Recorded := poll_recorded recorded call
  obtain ⟨rfl, -⟩ := Prod.mk.inj unwound
  exact dropReply_recorded polled call _

end Call

namespace Flight

variable {setting : Setting} {cancelAt : Option Nat} {phase : Phase} {a b : Flight}

theorem Move.recorded (move : Move setting phase a b) (recorded : a.world.Recorded) :
    b.world.Recorded := by
  cases move with
  | start live started => exact Call.start_recorded recorded started
  | resume resumed => exact Call.resume_recorded recorded resumed
  | unwind unwound => exact Call.unwind_recorded recorded unwound
  | skip late => exact recorded.skip _ _
  | forget lost => exact recorded
  | note notes => exact recorded.notes notes

theorem Stride.recorded (stride : Stride setting cancelAt phase a b) (recorded : a.world.Recorded) :
    b.world.Recorded := by
  cases stride with
  | move move => exact move.recorded recorded
  | pass first early => exact ⟨recorded.entries, recorded.notices⟩
  | interrupt set first due => exact ⟨recorded.entries, recorded.notices⟩

end Flight

theorem Machine.run_recorded (setting : Setting) (cancelAt : Option Nat) (root : Statement) {w : World}
    (recorded : w.Recorded) : (run setting cancelAt root w).1.Recorded :=
  (run_strides setting cancelAt root w).keeps (motive := fun flight => flight.world.Recorded)
    (fun stride recorded => stride.recorded recorded) recorded

namespace Workflow

theorem world_recorded (workflow : Workflow) (called : List String) (cancelled : Bool) :
    (workflow.world called cancelled).Recorded :=
  World.Recorded.told (w := { store := workflow.seed, called, cancelled })
    ⟨rfl, fun _ => rfl⟩ rfl fun _ => rfl

theorem close_log {w : World} (recorded : w.Recorded) (outcome : Outcome) :
    (close w outcome).log = LogEntry.ofTrace (close w outcome).trace :=
  (recorded.conclude outcome).entries

theorem close_events {w : World} (recorded : w.Recorded) (outcome : Outcome) (id : String) :
    (close w outcome).events id = Event.ofTrace id (close w outcome).trace :=
  (recorded.conclude outcome).notices id

variable (workflow : Workflow) (setting : Setting) (cancellation : Cancellation) (called : List String)

theorem run_log : (workflow.run setting cancellation called).log =
    LogEntry.ofTrace (workflow.run setting cancellation called).trace :=
  close_log (Machine.run_recorded setting cancellation.at? workflow.root
    (workflow.world_recorded called cancellation.before)) _

theorem run_events (id : String) : (workflow.run setting cancellation called).events id =
    Event.ofTrace id (workflow.run setting cancellation called).trace :=
  close_events (Machine.run_recorded setting cancellation.at? workflow.root
    (workflow.world_recorded called cancellation.before)) _ id

end Workflow

end FlowTree

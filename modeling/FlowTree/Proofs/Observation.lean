import FlowTree.Proofs.Barriers
import FlowTree.Proofs.Quoting
import FlowTree.Proofs.Run.Records
import FlowTree.Proofs.Run.Skips

/-! The log of a run and its events tell the same story. The entries that report a start or an end
correspond to the events one by one, and say the same. A call that is skipped is in the log only. -/

set_option autoImplicit false

namespace FlowTree

namespace LogEntry

def reports (entry : LogEntry) : Bool :=
  ["workflow_started", "invocation_started", "invocation_completed", "invocation_failed",
    "invocation cancelled", "workflow_completed", "workflow_failed"].contains entry.message

def skip (name : String) : LogEntry :=
  ⟨.debug, "skipping invocation in cancelled scope", [("invocation", name)]⟩

end LogEntry

namespace Event

/-- An event under an execution id tells what an entry of the log says. -/
inductive Tells (id : String) (entry : LogEntry) : Event → Prop where
  | workflowStarted (workflowId : String) (message : entry.message = "workflow_started")
    (workflow : entry.fields.lookup "workflow_id" = some workflowId) :
    Tells id entry (.workflowStarted id workflowId)
  | invocationStarted (name : String) (inputs : List String)
    (message : entry.message = "invocation_started")
    (invocation : entry.fields.lookup "invocation" = some name)
    (shown : entry.fields.lookup "inputs" = some (Text.quotedList inputs)) :
    Tells id entry (.invocationStarted id name inputs)
  | invocationCompleted (name output : String) (message : entry.message = "invocation_completed")
    (invocation : entry.fields.lookup "invocation" = some name)
    (shown : entry.fields.lookup "output" = some output) :
    Tells id entry (.invocationCompleted id name output)
  | invocationFailed (name error : String) (message : entry.message = "invocation_failed")
    (invocation : entry.fields.lookup "invocation" = some name)
    (shown : entry.fields.lookup "error" = some error) (active : error ≠ "execution cancelled") :
    Tells id entry (.invocationFailed id name error)
  | invocationCancelled (name : String) (message : entry.message = "invocation cancelled")
    (invocation : entry.fields.lookup "invocation" = some name) :
    Tells id entry (.invocationFailed id name "execution cancelled")
  | workflowCompleted (message : entry.message = "workflow_completed") :
    Tells id entry (.workflowCompleted id)
  | workflowFailed (error : String) (message : entry.message = "workflow_failed")
    (shown : entry.fields.lookup "error" = some error) : Tells id entry (.workflowFailed id error)

variable {id : String}

/-- An entry leaves no doubt about its event: the written inputs show which inputs they are. -/
theorem Tells.unique {entry : LogEntry} {event other : Event} (tells : Tells id entry event)
    (tells' : Tells id entry other) : event = other := by
  cases tells with
  | invocationStarted name inputs message invocation shown =>
    cases tells' with
    | invocationStarted name' inputs' message' invocation' shown' =>
      obtain rfl := Option.some.inj (invocation.symm.trans invocation')
      obtain rfl := Text.quotedList_injective (Option.some.inj (shown.symm.trans shown'))
      rfl
    | _ => simp_all
  | _ => cases tells' <;> simp_all

theorem reports_ofHappening (id : String) (happening : Happening) :
    (LogEntry.ofHappening happening).reports = (ofHappening id happening).isSome := by
  cases happening <;> rfl

theorem tells_ofHappening {happening : Happening} {event : Event}
    (told : ofHappening id happening = some event) :
    Tells id (LogEntry.ofHappening happening) event := by
  cases happening with
  | workflowStarted =>
    cases told
    exact .workflowStarted _ rfl rfl
  | started =>
    cases told
    exact .invocationStarted _ _ rfl rfl rfl
  | completed =>
    cases told
    exact .invocationCompleted _ _ rfl rfl rfl
  | failed place name error =>
    cases told
    exact .invocationFailed _ _ rfl rfl rfl (Failure.message_invocation_ne name error)
  | cancelled =>
    cases told
    exact .invocationCancelled _ rfl rfl
  | workflowCompleted =>
    cases told
    exact .workflowCompleted rfl
  | workflowFailed =>
    cases told
    exact .workflowFailed _ rfl rfl
  | skipped | branchFailed | discarded => cases told

end Event

theorem forall₂_filter_filterMap {α β γ : Type} {rel : β → γ → Prop} {left : α → β} {keep : β → Bool}
    {right : α → Option γ} (both : ∀ a, keep (left a) = (right a).isSome)
    (related : ∀ a c, right a = some c → rel (left a) c) (values : List α) :
    List.Forall₂ rel ((values.map left).filter keep) (values.filterMap right) := by
  induction values with
  | nil => exact .nil
  | cons a rest ih =>
    cases told : right a with
    | none =>
      have silent : keep (left a) = false := by rw [both, told]; rfl
      rwa [List.map_cons, List.filter_cons_of_neg (by simp [silent]), List.filterMap_cons_none told]
    | some c =>
      have kept : keep (left a) = true := by rw [both, told]; rfl
      rw [List.map_cons, List.filter_cons_of_pos kept, List.filterMap_cons_some told]
      exact .cons (related a c told) ih

namespace Happening

def place? : Happening → Option Position
  | .started place _ _ _ => some place
  | .completed place _ _ _ => some place
  | .failed place _ _ => some place
  | .cancelled place _ _ => some place
  | .skipped place _ => some place
  | _ => none

theorem met?_or_closed?_of_place? {happening : Happening} {place : Position}
    (about : happening.place? = some place) :
    ∃ name, happening.met? = some (place, name) ∨ happening.closed? = some (place, name) := by
  cases happening with
  | started there name | completed there name | failed there name | cancelled there name
  | skipped there name =>
    cases about
    simp [met?, closed?]
  | _ => cases about

end Happening

namespace Trace

def met (trace : Trace) : Multiset CallId := ↑(trace.filterMap Happening.met?)

theorem opened_le_met (trace : Trace) : trace.opened ≤ trace.met := by
  refine Multiset.coe_le.2 (List.Sublist.subperm ?_)
  induction trace with
  | nil => exact .slnil
  | cons head rest ih =>
    cases head with
    | started place name => exact ih.cons_cons (place, name)
    | skipped place name => exact ih.cons (place, name)
    | _ => exact ih

/-- When every call has ended that went out, an entry about a call is about one of those that have
gone out or have been skipped. -/
theorem mem_met {trace : Trace} (balanced : trace.opened = trace.closed) {happening : Happening}
    (mem : happening ∈ trace) {place : Position} (about : happening.place? = some place) :
    ∃ name, (place, name) ∈ trace.met := by
  obtain ⟨name, meets | ends⟩ := happening.met?_or_closed?_of_place? about
  · exact ⟨name, Multiset.mem_coe.2 (List.mem_filterMap.2 ⟨happening, mem, meets⟩)⟩
  · have closed : (place, name) ∈ trace.closed :=
      Multiset.mem_coe.2 (List.mem_filterMap.2 ⟨happening, mem, ends⟩)
    exact ⟨name, Multiset.mem_of_le trace.opened_le_met (balanced ▸ closed)⟩

theorem met_skipped (before after : Trace) (place : Position) (name : String) :
    (before ++ .skipped place name :: after).met = (place, name) ::ₘ (before ++ after).met := by
  simp only [met, List.filterMap_append, Multiset.cons_coe]
  exact Multiset.coe_eq_coe.2 List.perm_middle

end Trace

namespace Flight

variable {setting : Setting} {phase : Phase} {a b : Flight}

def met (flight : Flight) : Multiset CallId :=
  flight.world.trace.met + flight.todo.map Site.id

theorem met_emit (w : World) {happening : Happening} (silent : happening.met? = none)
    (todo : Multiset Site) (calls others : Multiset Call) :
    met ⟨w.emit happening, todo, calls⟩ = met ⟨w, todo, others⟩ :=
  congrArg (· + _) (congrArg Multiset.ofList (w.filterMap_emit silent))

theorem met_emit_of_met (w : World) {happening : Happening} (site : Site)
    (meets : happening.met? = some site.id) (todo : Multiset Site) (calls others : Multiset Call) :
    met ⟨w.emit happening, todo, calls⟩ = met ⟨w, site ::ₘ todo, others⟩ := by
  have last : Trace.met (w.emit happening).trace = w.trace.met + {site.id} := by
    rw [World.trace_emit, Trace.met, List.filterMap_append, List.filterMap_cons_some meets,
      ← Multiset.coe_add]
    rfl
  calc (w.emit happening).trace.met + todo.map Site.id
      = w.trace.met + (site.id ::ₘ todo.map Site.id) := by
        rw [last, add_assoc, Multiset.singleton_add]
    _ = w.trace.met + (site ::ₘ todo).map Site.id := by rw [Multiset.map_cons]

theorem Tick.met_le (tick : Tick setting phase a b) : b.met ≤ a.met := by
  cases tick with
  | @send place invocation w todo calls called live =>
    exact (met_emit_of_met w (place, invocation) rfl todo calls calls).le
  | stir _ stirs =>
    cases stirs
    exact le_rfl
  | @complete call w todo calls output live =>
    have written : met ⟨w.write call.result output, todo, calls⟩ = met ⟨w, todo, calls⟩ :=
      congrArg (fun trace : Trace => trace.met + todo.map Site.id) (w.trace_write call.result output)
    exact ((met_emit (w.write call.result output) rfl todo calls calls).trans written).le
  | @fail _ call w _ _ todo calls _ fails => cases fails <;> exact (met_emit w rfl todo calls calls).le
  | @skip _ place invocation w todo calls _ =>
    exact (met_emit_of_met w (place, invocation) rfl todo calls calls).le
  | forget lost =>
    unfold met
    rw [Multiset.map_add]
    exact add_le_add_right (Multiset.le_add_left _ _) _
  | @note w _ todo calls notes => cases notes <;> exact (met_emit w rfl todo calls calls).le
  | sleep | pass | interrupt => exact le_rfl

end Flight

theorem Workflow.run_met (workflow : Workflow) (setting : Setting) (cancellation : Cancellation)
    (called : List String) :
    (workflow.run setting cancellation called).trace.met ≤ workflow.root.callIds := by
  obtain ⟨w, outcome, eq, leads⟩ := workflow.run_leads setting cancellation called
  have start : (Flight.met ⟨workflow.world called cancellation.before, workflow.root.part.todo [], 0⟩) ≤
      workflow.root.callIds := by
    have none : (workflow.world called cancellation.before).trace.met = 0 := rfl
    rw [Flight.met, none, zero_add]
    exact le_rfl
  have last := leads.keeps (motive := fun flight => flight.met ≤ workflow.root.callIds)
    (fun tick le => tick.met_le.trans le) start
  have silent : (closing outcome).met? = none := by cases outcome <;> rfl
  rw [← Flight.met_emit w silent 0 0 0] at last
  rw [eq]
  exact (Multiset.le_add_right _ _).trans last

namespace Run

/-- What an observer sees of a run of a tree is what its log says. -/
structure Observed (run : Run) (id : String) (tree : Statement) : Prop where
  /-- The entries that report something and the events correspond one by one, in order. -/
  agree : List.Forall₂ (Event.Tells id) (run.log.filter LogEntry.reports) (run.events id)
  /-- No other events would agree with this log. -/
  sole : ∀ events, List.Forall₂ (Event.Tells id) (run.log.filter LogEntry.reports) events →
    events = run.events id
  /-- The log tells of what happens and of nothing else. -/
  log : run.log = LogEntry.ofTrace run.trace
  /-- So do the events. -/
  events : run.events id = Event.ofTrace id run.trace
  /-- Those invocations are skipped that the run comes to in a cancelled scope. -/
  cancelled : SkipsCancelled run.moments
  /-- An invocation that is skipped leaves one entry in the log, and nothing else anywhere. -/
  skips : ∀ before place name after, run.trace = before ++ .skipped place name :: after →
    (∃ call, tree.invocation? place = some call ∧ call.name = name) ∧
    run.log = LogEntry.ofTrace before ++ LogEntry.skip name :: LogEntry.ofTrace after ∧
    run.events id = Event.ofTrace id before ++ Event.ofTrace id after ∧
    run.trace.calls = Trace.calls before ++ Trace.calls after ∧
    ∀ happening ∈ before ++ after, happening.place? ≠ some place

end Run

/-- The log and the events of every run tell the same story. -/
theorem Workflow.run_observed (workflow : Workflow) (setting : Setting)
    (cancellation : Cancellation) (called : List String) (id : String) :
    (workflow.run setting cancellation called).Observed id workflow.root := by
  have log := workflow.run_log setting cancellation called
  have events := workflow.run_events setting cancellation called id
  have skips := workflow.run_skips setting cancellation called
  have met := workflow.run_met setting cancellation called
  have balanced := workflow.run_balanced setting cancellation called
  generalize workflow.run setting cancellation called = run at log events skips met balanced ⊢
  have agree : List.Forall₂ (Event.Tells id) (run.log.filter LogEntry.reports) (run.events id) := by
    rw [log, events]
    exact forall₂_filter_filterMap (Event.reports_ofHappening id)
      (fun _ _ told => Event.tells_ofHappening told) run.trace
  constructor
  case agree => exact agree
  case sole =>
    intro other tells
    exact List.right_unique_forall₂' (R := Event.Tells id) (fun _ _ _ => Event.Tells.unique) tells agree
  case log => exact log
  case events => exact events
  case cancelled => exact skips
  case skips =>
    intro before place name after split
    have here : (place, name) ::ₘ (before ++ after : Trace).met ≤ workflow.root.callIds := by
      rw [← Trace.met_skipped, ← split]
      exact met
    refine ⟨?_, ?_, ?_, ?_, ?_⟩
    · exact workflow.root.invocation?_of_mem_callIds (Multiset.mem_of_le here (Multiset.mem_cons_self _ _))
    · rw [log, split, LogEntry.ofTrace, List.map_append, List.map_cons]
      rfl
    · rw [events, split, Event.ofTrace, List.filterMap_append, List.filterMap_cons_none rfl]
      rfl
    · rw [split, Trace.calls, List.filterMap_append, List.filterMap_cons_none rfl]
      rfl
    · -- Calls that have opened have closed, so another entry here would mean to come here twice.
      intro happening mem about
      have apart := Multiset.nodup_of_le (Multiset.map_le_map here) workflow.root.callIds_apart
      rw [Multiset.map_cons] at apart
      have even : (before ++ after : Trace).opened = (before ++ after : Trace).closed := by
        rw [split, Trace.opened_append, Trace.closed_append] at balanced
        rw [Trace.opened_append, Trace.closed_append]
        exact balanced
      obtain ⟨other, known⟩ := Trace.mem_met even mem about
      exact (Multiset.nodup_cons.1 apart).1 (Multiset.mem_map.2 ⟨_, known, rfl⟩)

end FlowTree

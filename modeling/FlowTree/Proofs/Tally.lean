import FlowTree.Proofs.Run.Accounts
import FlowTree.Proofs.Run.Records

/-! The events of a run account for its calls. -/

set_option autoImplicit false

namespace FlowTree

namespace Event

def closing (id : String) : Outcome → Event
  | .ok () => .workflowCompleted id
  | .error failure => .workflowFailed id failure.message

def isOfCall : Event → Bool
  | .invocationStarted _ _ _ => true
  | .invocationCompleted _ _ _ => true
  | .invocationFailed _ _ _ => true
  | _ => false

def sent? : Event → Option (String × List String)
  | .invocationStarted _ name inputs => some (name, inputs)
  | _ => none

def opens? : Event → Option String
  | .invocationStarted _ name _ => some name
  | _ => none

def completes? : Event → Option String
  | .invocationCompleted _ name _ => some name
  | _ => none

def breaks? : Event → Option String
  | .invocationFailed _ name _ => some name
  | _ => none

def closes? : Event → Option String
  | .invocationCompleted _ name _ => some name
  | .invocationFailed _ name _ => some name
  | _ => none

section

variable {α β : Type} {view : Event → Option α} {raw : Happening → Option β} {name : β → α}

theorem filterMap_ofTrace (id : String) (trace : Trace)
    (same : ∀ happening, (ofHappening id happening).bind view = (raw happening).map name) :
    (ofTrace id trace).filterMap view = (trace.filterMap raw).map name := by
  rw [ofTrace, List.filterMap_filterMap, List.map_filterMap]
  exact congrArg (List.filterMap · trace) (funext same)

end

variable (id : String) (trace : Trace)

theorem opens_ofTrace : (ofTrace id trace).filterMap opens? =
    (trace.filterMap Happening.opened?).map (·.2) :=
  filterMap_ofTrace id trace fun happening => by cases happening <;> rfl

theorem closes_ofTrace : (ofTrace id trace).filterMap closes? =
    (trace.filterMap Happening.closed?).map (·.2) :=
  filterMap_ofTrace id trace fun happening => by cases happening <;> rfl

theorem completes_ofTrace : (ofTrace id trace).filterMap completes? =
    (trace.filterMap Happening.completed?).map (·.2) :=
  filterMap_ofTrace id trace fun happening => by cases happening <;> rfl

theorem breaks_ofTrace : (ofTrace id trace).filterMap breaks? =
    (trace.filterMap Happening.broken?).map (·.2) :=
  filterMap_ofTrace id trace fun happening => by cases happening <;> rfl

theorem sent_ofTrace : (ofTrace id trace).filterMap sent? =
    trace.calls.map fun call => (call.name, call.inputs) :=
  filterMap_ofTrace id trace fun happening => by cases happening <;> rfl

end Event

namespace Trace

theorem abandoned_sublist (trace : Trace) :
    trace.abandoned.Sublist ((trace.filterMap Happening.broken?).map (·.2)) := by
  induction trace with
  | nil => exact .slnil
  | cons head rest ih =>
    cases head with
    | cancelled place name abandoned =>
      cases abandoned with
      | true => exact ih.cons_cons name
      | false => exact ih.cons name
    | failed place name error => exact ih.cons name
    | _ => exact ih

def Orderly (trace : Trace) : Prop :=
  ∀ before after, trace = before ++ after → before.closed ≤ before.opened

theorem orderly_nil : Orderly [] := by
  intro before after split
  rw [(List.nil_eq_append_iff.1 split).1]
  exact le_rfl

theorem Orderly.concat {trace : Trace} {happening : Happening} (orderly : trace.Orderly)
    (last : (trace ++ [happening]).closed ≤ (trace ++ [happening]).opened) :
    (trace ++ [happening]).Orderly := by
  intro before after split
  rcases after.eq_nil_or_concat with rfl | ⟨rest, final, rfl⟩
  · rw [List.append_nil] at split
    exact split ▸ last
  · rw [List.concat_eq_append, ← List.append_assoc] at split
    exact orderly before rest (List.append_inj' split rfl).1

end Trace

namespace Flight

variable {setting : Setting} {phase : Phase} {a b : Flight}

theorem Tick.trace (tick : Tick setting phase a b) :
    b.world.trace = a.world.trace ∨
      ∃ entry : Happening, b.world.trace = a.world.trace ++ [entry] ∧
        ∀ id, ∀ event ∈ Event.ofHappening id entry, event.isOfCall = true := by
  cases tick with
  | send called live => exact .inr ⟨_, World.trace_emit _ _, by rintro id _ ⟨⟩; rfl⟩
  | stir _ stirs =>
    cases stirs
    exact .inl rfl
  | @complete call w todo calls output live =>
    have written := (w.write call.result output).trace_emit
      (.completed call.place call.name call.result output)
    rw [World.trace_write] at written
    exact .inr ⟨_, written, by rintro id _ ⟨⟩; rfl⟩
  | fail _ fails =>
    cases fails <;> exact .inr ⟨_, World.trace_emit _ _, by rintro id _ ⟨⟩; rfl⟩
  | skip _ => exact .inr ⟨_, World.trace_emit _ _, by rintro id _ ⟨⟩⟩
  | note notes => cases notes <;> exact .inr ⟨_, World.trace_emit _ _, by rintro id _ ⟨⟩⟩
  | sleep | pass | interrupt | forget => exact .inl rfl

/-- The calls balance in the whole trace and in each of its prefixes. -/
structure Ordered (flight : Flight) : Prop where
  balanced : flight.Balanced
  orderly : flight.world.trace.Orderly

theorem Tick.ordered (tick : Tick setting phase a b) (ordered : Ordered a) : Ordered b := by
  have balanced := tick.balanced ordered.balanced
  refine ⟨balanced, ?_⟩
  rcases tick.trace with same | ⟨entry, eq, -⟩
  · rw [same]
    exact ordered.orderly
  · rw [eq]
    refine ordered.orderly.concat ?_
    rw [← eq, balanced]
    exact Multiset.le_add_right _ _

/-- Between the entry that opens the trace and the one that closes it there are entries that an
observer is told of as calls or not at all. -/
def Framed (first : Happening) (flight : Flight) : Prop :=
  ∃ later, flight.world.trace = first :: later ∧
    ∀ id, ∀ event ∈ Event.ofTrace id later, event.isOfCall = true

theorem Tick.framed {first : Happening} (tick : Tick setting phase a b)
    (framed : Framed first a) : Framed first b := by
  obtain ⟨later, eq, inner⟩ := framed
  rcases tick.trace with same | ⟨entry, grown, told⟩
  · exact ⟨later, same.trans eq, inner⟩
  · refine ⟨later ++ [entry], by rw [grown, eq, List.cons_append], ?_⟩
    intro id event mem
    rw [Event.ofTrace, List.filterMap_append] at mem
    rcases List.mem_append.1 mem with mem | mem
    · exact inner id event mem
    · obtain ⟨h, here, tells⟩ := List.mem_filterMap.1 mem
      cases List.mem_singleton.1 here
      exact told id event tells

end Flight

/-- What a host counts when calls go out: those of the names that it knows, the newest first. -/
def Host.counted (host : Host) (sent : List String) (earlier : List String) : List String :=
  (sent.filter fun name => (host.find? name).isSome).reverse ++ earlier

theorem World.Stirs.called {w w' : World} (stirs : w.Stirs w') : w'.called = w.called := by
  cases stirs
  rfl

namespace Call

variable {setting : Setting} {call : Call} {w w' : World}

theorem dropReply_called (w : World) (call : Call) (reply : Reply) :
    (call.dropReply w reply).1.called = w.called := by
  obtain ⟨mid, entry, failure, tells, eq, -⟩ := dropReply_fails w call reply
  rw [eq]
  exact (World.Stirs.of_tells tells).called

theorem takeReply_called (w : World) (call : Call) (reply : Reply) :
    (call.takeReply w reply).1.called = w.called := by
  unfold takeReply
  split
  · exact dropReply_called w call reply
  · split
    · unfold complete World.write
      split <;> rfl
    · rfl
    · rfl
    · rfl

theorem start_called {place : Position} {invocation : Invocation} {state : Call ⊕ Outcome}
    (started : start setting place invocation w = (w', state)) :
    w'.called = setting.host.counted [invocation.name] w.called := by
  obtain rfl : (start setting place invocation w).1 = w' := congrArg Prod.fst started
  unfold start Host.counted
  split
  · next unknown =>
    rw [takeReply_called]
    simp [unknown, sent, World.emit, World.notify, World.log]
  · next work known =>
    have stirs := advance_stirs setting (fresh setting place invocation w)
      { sent setting place invocation w with called := invocation.name :: w.called }
      (work.script (w.called.count invocation.name) (w.inputs invocation))
    rw [takeReply_called, stirs.called]
    simp [known]

theorem Lands.sent {state : Call ⊕ Outcome} (lands : call.Lands w w' state) :
    w'.trace.calls = w.trace.calls ∧ w'.called = w.called := by
  cases lands with
  | asleep => exact ⟨rfl, rfl⟩
  | completed output live =>
    refine ⟨?_, ?_⟩
    · rw [trace_complete, Trace.calls, List.filterMap_append]
      exact List.append_nil _
    · unfold complete World.write
      split <;> rfl
  | failed fails =>
    refine ⟨?_, rfl⟩
    cases fails <;> exact World.filterMap_emit _ rfl

end Call

namespace Flight

def Counted (host : Host) (earlier : List String) (flight : Flight) : Prop :=
  flight.world.called = host.counted (flight.world.trace.calls.map (·.name)) earlier

variable {setting : Setting} {cancelAt : Option Nat} {phase : Phase} {a b : Flight}
  {earlier : List String}

theorem Counted.of_same (counted : Counted setting.host earlier a)
    (same : b.world.trace.calls = a.world.trace.calls ∧ b.world.called = a.world.called) :
    Counted setting.host earlier b := by
  rw [Counted, same.1, same.2]
  exact counted

theorem Move.counted (move : Move setting phase a b) (counted : Counted setting.host earlier a) :
    Counted setting.host earlier b := by
  cases move with
  | @start place invocation w w' state todo calls live started =>
    have called := Call.start_called started
    obtain ⟨unknown, mid, stirs, lands⟩ := Call.start_lands started
    have calls : w'.trace.calls =
        w.trace.calls ++ [⟨invocation.name, w.inputs invocation,
          invocation.timeout.getD setting.timeout⟩] := by
      rw [lands.sent.1]
      cases stirs
      exact (congrArg Trace.calls (Call.trace_sent setting place invocation w)).trans
        List.filterMap_append
    unfold Counted at counted ⊢
    rw [called, calls, List.map_append, Host.counted, Host.counted, List.filter_append,
      List.reverse_append, List.append_assoc]
    exact congrArg (_ ++ ·) counted
  | resume resumed =>
    obtain ⟨mid, stirs, lands⟩ := Call.resume_lands resumed
    refine counted.of_same ?_
    cases stirs
    exact lands.sent
  | unwind unwound =>
    obtain ⟨mid, entry, stirs, rfl, fails⟩ := Call.unwind_fails unwound
    refine counted.of_same ⟨?_, ?_⟩
    · cases stirs
      cases fails <;> exact World.filterMap_emit _ rfl
    · cases stirs
      rfl
  | skip late => exact counted.of_same ⟨World.filterMap_emit _ rfl, rfl⟩
  | forget lost => exact counted
  | note notes =>
    obtain ⟨mid, entry, tells, rfl, noted⟩ := notes.emits
    cases tells
    refine counted.of_same ⟨?_, rfl⟩
    cases noted <;> exact World.filterMap_emit _ rfl

theorem Stride.counted (stride : Stride setting cancelAt phase a b)
    (counted : Counted setting.host earlier a) : Counted setting.host earlier b := by
  cases stride with
  | move move => exact move.counted counted
  | pass | interrupt => exact counted

end Flight

structure Run.Tallied (run : Run) (workflow : Workflow) (host : Host) (earlier : List String)
    (id : String) : Prop where
  /-- One event opens the run, one closes it by its outcome, and those between tell of calls. -/
  frame : ∃ inner, run.events id =
      .workflowStarted id workflow.id :: inner ++ [.closing id run.outcome] ∧
    ∀ event ∈ inner, event.isOfCall = true
  /-- The events tell of the calls that went out, with their inputs and in their order. -/
  sent : (run.events id).filterMap Event.sent? =
    run.trace.calls.map fun call => (call.name, call.inputs)
  counted : run.called = host.counted ((run.events id).filterMap Event.opens?) earlier
  /-- At no point have more calls of a name ended than gone out. -/
  ordered : ∀ before after, run.events id = before ++ after → ∀ name,
    (before.filterMap Event.closes?).count name ≤ (before.filterMap Event.opens?).count name
  ended : ((run.events id).filterMap Event.closes?).Perm
    ((run.events id).filterMap Event.opens?)
  /-- No invocation of the tree is called twice, and nothing else is called. -/
  once : ((run.trace.filterMap Happening.opened?).map (·.1)).Nodup
  known : ∀ call ∈ run.trace.opened, ∃ invocation,
    workflow.root.invocation? call.1 = some invocation ∧ invocation.name = call.2
  abandoned : (↑run.trace.abandoned : Multiset String) ≤
    ↑((run.events id).filterMap Event.breaks?)
  /-- A run ends well exactly if every invocation of its tree completes. -/
  succeeds : run.outcome = .ok () ↔
    ((run.events id).filterMap Event.completes?).length = workflow.root.invocationCount
  whole : run.outcome = .ok () →
    ((run.events id).filterMap Event.opens?).Perm
      (workflow.root.invocations.map (·.name)) ∧ run.trace.abandoned = []

namespace Workflow

variable (workflow : Workflow) (setting : Setting) (cancellation : Cancellation)
  (called : List String)

structure Reaches (w : World) (outcome : Outcome) : Prop where
  framed : Flight.Framed (.workflowStarted workflow.id workflow.name workflow.seed.size) ⟨w, 0, 0⟩
  balanced : w.trace.opened = w.trace.closed
  orderly : w.trace.Orderly
  opened : w.trace.opened ≤ workflow.root.callIds
  succeeds : outcome = .ok () → w.trace.completed = workflow.root.callIds
  fails : ∀ failure, outcome = .error failure → w.trace.completed < workflow.root.callIds
  counted : Flight.Counted setting.host called ⟨w, 0, 0⟩

theorem run_reaches : ∃ w outcome, workflow.run setting cancellation called = close w outcome ∧
    workflow.Reaches setting called w outcome := by
  obtain ⟨w, outcome, eq, strides⟩ := workflow.run_strides setting cancellation called
  have leads := Flight.leads_iff.2 (strides.refine Flight.Stride.ticks)
  have ordered := leads.keeps (motive := Flight.Ordered) Flight.Tick.ordered
    ⟨rfl, Trace.orderly_nil.concat le_rfl⟩
  have balanced : w.trace.opened = w.trace.closed :=
    ordered.balanced.trans (add_zero _)
  have begins : Flight.kept ⟨workflow.world called cancellation.before,
      workflow.root.part.todo [], 0⟩ = workflow.root.callIds := by
    rw [Flight.kept, Multiset.map_zero, zero_add]
    exact zero_add _
  refine ⟨w, outcome, eq, ?_⟩
  constructor
  case framed => exact leads.keeps (motive := Flight.Framed _) Flight.Tick.framed ⟨[], rfl, nofun⟩
  case balanced => exact balanced
  case orderly => exact ordered.orderly
  case opened =>
    have reached := leads.keeps
      (motive := fun flight => flight.reached ≤ workflow.root.callIds)
      (fun tick le => tick.reached_le.trans le) (le_of_eq (zero_add _))
    exact le_trans (le_of_eq (add_zero _).symm) reached
  case succeeds =>
    rintro rfl
    have same := Flight.Calm.kept_eq leads
    rw [begins] at same
    exact (add_zero _).symm.trans same
  case fails =>
    rintro failure rfl
    have fewer := Flight.Falls.completed_lt leads
    rwa [begins] at fewer
  case counted =>
    exact strides.keeps (motive := Flight.Counted setting.host called) Flight.Stride.counted rfl

theorem close_filterMap {α : Type} {view : Happening → Option α}
    (silent : ∀ outcome, view (closing outcome) = none) (w : World) (outcome : Outcome) :
    (close w outcome).trace.filterMap view = w.trace.filterMap view :=
  w.filterMap_emit (silent outcome)

theorem closing_event (id : String) (outcome : Outcome) :
    Event.ofHappening id (closing outcome) = some (.closing id outcome) := by
  cases outcome <;> rfl

theorem closing_silent (outcome : Outcome) :
    (closing outcome).opened? = none ∧ (closing outcome).closed? = none ∧
      (closing outcome).completed? = none ∧ (closing outcome).broken? = none := by
  cases outcome <;> exact ⟨rfl, rfl, rfl, rfl⟩

end Workflow

namespace Workflow.Reaches

variable {workflow : Workflow} {setting : Setting} {called : List String} {w : World}
  {outcome : Outcome}

theorem frame (reaches : workflow.Reaches setting called w outcome) (id : String) :
    ∃ inner, Event.ofTrace id (close w outcome).trace =
        .workflowStarted id workflow.id :: inner ++ [.closing id outcome] ∧
      ∀ event ∈ inner, event.isOfCall = true := by
  obtain ⟨later, eq, inner⟩ := reaches.framed
  refine ⟨Event.ofTrace id later, ?_, inner id⟩
  have opening : w.trace = .workflowStarted workflow.id workflow.name workflow.seed.size :: later := eq
  rw [close_trace, opening, Event.ofTrace, List.filterMap_append,
    List.filterMap_cons_some (closing_event id outcome)]
  rfl

theorem orderly_close (reaches : workflow.Reaches setting called w outcome) :
    (close w outcome).trace.Orderly := by
  rw [close_trace]
  refine reaches.orderly.concat ?_
  have silent := closing_silent outcome
  have none : Trace.closed [closing outcome] = 0 ∧ Trace.opened [closing outcome] = 0 := by
    simp [Trace.closed, Trace.opened, silent]
  rw [Trace.closed_append, Trace.opened_append, none.1, none.2, add_zero, add_zero,
    reaches.balanced]

theorem all_complete (reaches : workflow.Reaches setting called w (.ok ())) :
    w.trace.opened = workflow.root.callIds ∧ w.trace.broken = 0 := by
  have completed := reaches.succeeds rfl
  have closed := w.trace.closed_eq
  rw [← reaches.balanced, completed] at closed
  have broken : w.trace.broken = 0 := by
    have le : workflow.root.callIds + w.trace.broken ≤ workflow.root.callIds + 0 := by
      rw [← closed, add_zero]
      exact reaches.opened
    exact nonpos_iff_eq_zero.1 (le_of_add_le_add_left le)
  rw [broken, add_zero] at closed
  exact ⟨closed, broken⟩

end Workflow.Reaches

/-- The events of every run account for its calls. -/
theorem Workflow.run_tallies (workflow : Workflow) (setting : Setting) (cancellation : Cancellation)
    (called : List String) (id : String) :
    (workflow.run setting cancellation called).Tallied workflow setting.host called id := by
  obtain ⟨w, outcome, eq, reaches⟩ := workflow.run_reaches setting cancellation called
  have silent := closing_silent
  have opened : (close w outcome).trace.filterMap Happening.opened? = w.trace.filterMap _ :=
    close_filterMap (fun o => (silent o).1) w outcome
  have closed : (close w outcome).trace.filterMap Happening.closed? = w.trace.filterMap _ :=
    close_filterMap (fun o => (silent o).2.1) w outcome
  have completed : (close w outcome).trace.filterMap Happening.completed? = w.trace.filterMap _ :=
    close_filterMap (fun o => (silent o).2.2.1) w outcome
  have broken : (close w outcome).trace.filterMap Happening.broken? = w.trace.filterMap _ :=
    close_filterMap (fun o => (silent o).2.2.2) w outcome
  have events := workflow.run_events setting cancellation called id
  rw [eq] at events ⊢
  constructor
  case frame =>
    rw [events]
    exact reaches.frame id
  case sent =>
    rw [events]
    exact Event.sent_ofTrace id _
  case counted =>
    have sent : (close w outcome).trace.calls = w.trace.calls :=
      close_filterMap (fun o => by cases o <;> rfl) w outcome
    have names : (Event.ofTrace id (close w outcome).trace).filterMap Event.opens? =
        (close w outcome).trace.calls.map (·.name) :=
      Event.filterMap_ofTrace id _ fun happening => by cases happening <;> rfl
    rw [events, names, sent]
    exact reaches.counted
  case ordered =>
    intro before after split name
    -- A prefix of the events is what an observer is told of a prefix of the trace.
    rw [events] at split
    obtain ⟨first, rest, cut, rfl, -⟩ := List.filterMap_eq_append_iff.1 split
    have le := reaches.orderly_close first rest cut
    have names := Multiset.count_le_of_le name (Multiset.map_le_map (f := Prod.snd) le)
    rw [Trace.closed, Trace.opened, Multiset.map_coe, Multiset.map_coe, Multiset.coe_count,
      Multiset.coe_count] at names
    rw [← Event.ofTrace, Event.closes_ofTrace, Event.opens_ofTrace]
    exact names
  case ended =>
    rw [events, Event.closes_ofTrace, Event.opens_ofTrace, closed, opened]
    exact (Multiset.coe_eq_coe.1 reaches.balanced).symm.map _
  case once =>
    rw [opened]
    exact Multiset.nodup_of_le (Multiset.map_le_map reaches.opened) workflow.root.callIds_apart
  case known =>
    intro call mem
    rw [Trace.opened, opened] at mem
    exact workflow.root.invocation?_of_mem_callIds (Multiset.mem_of_le reaches.opened mem)
  case abandoned =>
    rw [events, Event.breaks_ofTrace]
    exact Multiset.coe_le.2 (Trace.abandoned_sublist _).subperm
  case succeeds =>
    rw [events, Event.completes_ofTrace, completed, List.length_map, ← workflow.root.card_callIds]
    constructor
    · rintro rfl
      exact congrArg Multiset.card (reaches.succeeds rfl)
    · intro size
      cases outcome with
      | ok => rfl
      | error failure =>
        exact absurd size (Nat.ne_of_lt (Multiset.card_lt_card (reaches.fails failure rfl)))
  case whole =>
    rintro rfl
    obtain ⟨all, none⟩ := reaches.all_complete
    constructor
    · rw [events, Event.opens_ofTrace, opened]
      have names := congrArg (Multiset.map Prod.snd) all
      rw [workflow.root.names_callIds] at names
      exact Multiset.coe_eq_coe.1 names
    · have sublist := (close w (.ok ())).trace.abandoned_sublist
      rw [broken, (Multiset.coe_eq_zero _).1 none] at sublist
      exact List.sublist_nil.1 sublist

end FlowTree
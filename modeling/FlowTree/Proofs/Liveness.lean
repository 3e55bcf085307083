import FlowTree.Proofs.Run.Reports
import FlowTree.Proofs.Run.Waiting
import FlowTree.Proofs.Tally

/-! Every run goes on until it ends. When the root waits and nothing is to be polled, there is a timer to
come in every branch that has not ended; there are finitely many polls, since each of them leaves less work;
and no block ends before all of its branches have. -/

set_option autoImplicit false

namespace FlowTree

open Relation (ReflTransGen)

namespace Machine

inductive Step (setting : Setting) (cancelAt : Option Nat) : Machine → Machine → Prop where
  | next (w : World) (task : Task) :
    Step setting cancelAt (.waiting w task) (next setting cancelAt w task)

variable {setting : Setting} {cancelAt : Option Nat}

/-- A root that waits, with what the trace tells of its calls. -/
structure Sound (w : World) (task : Task) : Prop where
  onTime : OnTime w task
  inFlight : w.InFlight task.part.calls

theorem start_sound (root : Statement) {w : World} (idle : w.InFlight 0) : Sound w (.fresh root) where
  onTime := onTime_fresh w root
  inFlight := by rwa [Task.part, root.calls_part]

theorem Sound.next {w mid : World} {task later : Task} (sound : Sound w task)
    (step : next setting cancelAt w task = .waiting mid later) : Sound mid later := by
  obtain ⟨instant, ready, goes, polled, onTime⟩ := sound.onTime.next step
  have all : World.InFlight { w with clock := instant } (task.part.calls + 0) := by
    rw [add_zero]
    exact sound.inFlight
  have left := (goes.proceeds polled).silent all
  rw [add_zero] at left
  exact ⟨onTime, left⟩

theorem reached_sound {root : Statement} {w mid : World} {task : Task} (idle : w.InFlight 0)
    (reached : ReflTransGen (Step setting cancelAt) (start root w) (.waiting mid task)) :
    Sound mid task := by
  generalize eq : Machine.waiting mid task = state at reached
  induction reached generalizing mid task with
  | refl =>
    cases eq
    exact start_sound root idle
  | tail _ last ih =>
    cases last with
    | next w task => exact (ih rfl).next eq.symm

/-- Only finitely many steps lead on from a state, as each one leaves less work. -/
theorem step_acc (state : Machine) :
    Acc (fun later earlier => Step setting cancelAt earlier later) state := by
  have ended (w : World) (outcome : Outcome) :
      Acc (fun later earlier => Step setting cancelAt earlier later) (.ended w outcome) :=
    ⟨_, fun _ step => nomatch step⟩
  cases state with
  | ended w outcome => exact ended w outcome
  | waiting w task =>
    induction w, task using finish.induct setting cancelAt with
    | case1 w task last outcome stepped =>
      refine ⟨_, fun later step => ?_⟩
      cases step
      rw [stepped]
      exact ended last outcome
    | case2 w task mid later stepped ih =>
      refine ⟨_, fun later step => ?_⟩
      cases step
      rw [stepped]
      exact ih

theorem no_infinite_path {state : Machine}
    (acc : Acc (fun later earlier => Step setting cancelAt earlier later) state) :
    ∀ path : Nat → Machine, path 0 = state →
      ¬ ∀ n, Step setting cancelAt (path n) (path (n + 1)) := by
  induction acc with
  | intro state _ ih =>
    rintro path rfl steps
    exact ih (path 1) (steps 0) (fun n => path (n + 1)) rfl fun n => steps (n + 1)

theorem finish_reached (w : World) (task : Task) :
    ReflTransGen (Step setting cancelAt) (.waiting w task)
      (.ended (finish setting cancelAt w task).1 (finish setting cancelAt w task).2) := by
  induction w, task using finish.induct setting cancelAt with
  | case1 w task last outcome stepped =>
    have step : Step setting cancelAt (.waiting w task) (.ended last outcome) := stepped ▸ .next w task
    rw [finish_of_ended stepped]
    exact .single step
  | case2 w task mid later stepped ih =>
    have step : Step setting cancelAt (.waiting w task) (.waiting mid later) := stepped ▸ .next w task
    rw [finish_of_waiting stepped]
    exact .head step ih

theorem run_reached (root : Statement) (w : World) :
    ReflTransGen (Step setting cancelAt) (start root w)
      (.ended (run setting cancelAt root w).1 (run setting cancelAt root w).2) :=
  finish_reached w (.fresh root)

end Machine

/-- The blocks of a run end only when all of their branches have. -/
structure Setting.DrainsBlocks (setting : Setting) : Prop where
  started : ∀ branches place w w' outcome,
    Task.poll setting (.fresh (.parallel branches)) place w = (w', .ended outcome) →
      Part.Drained setting place (Statement.parts branches) w w' outcome
  /-- A block goes on in which nothing is forgotten, and ends. -/
  polled : ∀ branches queue handedBack place w w' outcome,
    (Task.block branches queue handedBack).Poised (fun _ => True) →
    Task.poll setting (.block branches queue handedBack) place w = (w', .ended outcome) →
      Part.Drained setting place (Task.parts branches) w w' outcome
  skipped : ∀ branches place w w' outcome,
    Statement.skip setting.mode (.parallel branches) place w = (w', outcome) →
      Part.Drained setting place (Statement.parts branches) w w' outcome
  unwound : ∀ branches queue handedBack place w w' outcome,
    Task.unwind setting (.block branches queue handedBack) place w = (w', outcome) →
      Part.Drained setting place (Task.parts branches) w w' outcome

theorem Setting.drainsBlocks (setting : Setting) : setting.DrainsBlocks where
  started _ _ _ _ _ h := (Task.poll_proceeds (.fresh _) h).drained_block
  polled _ _ _ _ _ _ _ poised h := (Task.poll_proceeds poised h).drained_block
  skipped _ _ _ _ _ h := (Statement.skip_unwinds _ h).drained_block
  unwound _ _ _ _ _ _ _ h := (Task.unwind_unwinds _ h).drained_block

namespace Event

theorem length_of_calls {events : List Event} (each : ∀ e ∈ events, e.isOfCall = true) :
    events.length = (events.filterMap opens?).length + (events.filterMap closes?).length := by
  rw [List.length_filterMap_eq_countP, List.length_filterMap_eq_countP,
    events.length_eq_countP_add_countP fun e => e.opens?.isSome]
  refine congrArg _ (List.countP_congr fun e mem => ?_)
  have ofCall := each e mem
  cases e with
  | workflowStarted | workflowCompleted | workflowFailed => cases ofCall
  | _ => exact ⟨id, id⟩

end Event

namespace Workflow

variable (workflow : Workflow) (setting : Setting) (cancellation : Cancellation)
  (called : List String)

def Reached (state : Machine) : Prop :=
  ReflTransGen (Machine.Step setting cancellation.at?)
    (Machine.start workflow.root (workflow.world called cancellation.before)) state

/-- What keeps the runs of a workflow going until they end. -/
structure Live : Prop where
  /-- Whenever the root waits and all queues are empty, each branch that has not ended waits in a call of
  which the timers are still to fire, and time can move to the first of them. No other calls are in
  flight. -/
  pending : ∀ w task, workflow.Reached setting cancellation called (.waiting w task) →
    task.quiet = true → task.Awaits w.clock ∧ w.InFlight task.part.calls ∧
      ∃ instant, task.nextInstant = some instant ∧ w.clock < instant
  /-- The queues are empty unless the root asks to be polled again. Nothing is forgotten in them. -/
  awake : ∀ w task, workflow.Reached setting cancellation called (.waiting w task) →
    (task.woken = false → task.quiet = true) ∧ task.Poised fun call => w.clock < call.nextInstant
  finite : ∀ path : Nat → Machine,
    ¬ ∀ n, Machine.Step setting cancellation.at? (path n) (path (n + 1))
  ends : ∃ w outcome, workflow.Reached setting cancellation called (.ended w outcome) ∧
    workflow.run setting cancellation called = close w outcome
  blocks : setting.DrainsBlocks
  /-- One event for the start and one for the end of the run and of each of its calls. -/
  events : ∀ id, ((workflow.run setting cancellation called).events id).length ≤
    2 * workflow.root.invocationCount + 2

theorem events_le (id : String) :
    ((workflow.run setting cancellation called).events id).length ≤
      2 * workflow.root.invocationCount + 2 := by
  rw [workflow.run_events setting cancellation called id]
  obtain ⟨w, outcome, eq, reaches⟩ := workflow.run_reaches setting cancellation called
  obtain ⟨inner, told, calls⟩ := reaches.frame id
  have opened : ((Event.ofTrace id (close w outcome).trace).filterMap Event.opens?).length ≤
      workflow.root.invocationCount := by
    rw [Event.opens_ofTrace, List.length_map, close_filterMap (fun o => (closing_silent o).1),
      ← workflow.root.card_callIds]
    exact Multiset.card_le_card reaches.opened
  have closed : ((Event.ofTrace id (close w outcome).trace).filterMap Event.closes?).length ≤
      workflow.root.invocationCount := by
    rw [Event.closes_ofTrace, List.length_map, close_filterMap (fun o => (closing_silent o).2.1),
      ← workflow.root.card_callIds]
    exact Multiset.card_le_card (reaches.balanced ▸ reaches.opened)
  -- The events between the first and the last one tell of calls.
  have within : inner.Sublist (Event.ofTrace id (close w outcome).trace) := by
    rw [told]
    exact (List.sublist_cons_self _ _).trans (List.sublist_append_left _ _)
  have size := Event.length_of_calls calls
  have opens := (within.filterMap Event.opens?).length_le
  have closes := (within.filterMap Event.closes?).length_le
  rw [eq, told, List.length_append, List.length_cons, List.length_singleton]
  omega

theorem run_live : workflow.Live setting cancellation called := by
  constructor
  case pending =>
    intro w task reached quiet
    have idle : (workflow.world called cancellation.before).InFlight 0 := rfl
    have sound := Machine.reached_sound idle reached
    have awaits : task.Awaits w.clock := sound.onTime.paused.calm quiet
    obtain ⟨instant, next, later, -⟩ := awaits.next
    exact ⟨awaits, sound.inFlight, instant, next, later⟩
  case awake =>
    intro w task reached
    have idle : (workflow.world called cancellation.before).InFlight 0 := rfl
    have paused := (Machine.reached_sound idle reached).onTime.paused
    exact ⟨paused.asleep, paused.poised⟩
  case finite => exact fun path => Machine.no_infinite_path (Machine.step_acc _) path rfl
  case ends => exact ⟨_, _, Machine.run_reached workflow.root _, rfl⟩
  case blocks => exact setting.drainsBlocks
  case events => exact workflow.events_le setting cancellation called

end Workflow

end FlowTree

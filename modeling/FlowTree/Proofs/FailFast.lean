import FlowTree.Proofs.Run.Balance
import FlowTree.Proofs.Run.Records

/-! A run fails fast. From its first failed or cancelled call on, no call goes out, nothing is written
and time stands still: the calls in flight end without a value, and then the run fails. -/

set_option autoImplicit false

namespace FlowTree

open Relation (ReflTransGen)

structure Scene.Still (a b : Scene) : Prop where
  clock : b.clock = a.clock
  store : b.store = a.store
  called : b.called = a.called

namespace Scene.Still

theorem refl (a : Scene) : a.Still a := ⟨rfl, rfl, rfl⟩

variable {a b c : Scene}

theorem symm (h : a.Still b) : b.Still a := ⟨h.clock.symm, h.store.symm, h.called.symm⟩

theorem trans (first : a.Still b) (next : b.Still c) : a.Still c :=
  ⟨next.clock.trans first.clock, next.store.trans first.store, next.called.trans first.called⟩

end Scene.Still

/-- The entries of a scope that comes to its end without a value. -/
inductive Happening.Drains : Happening → Prop where
  | failed (place : Position) (name : String) (error : CallError) : Drains (.failed place name error)
  | cancelled (place : Position) (name : String) (abandoned : Bool) :
    Drains (.cancelled place name abandoned)
  | skipped (place : Position) (name : String) : Drains (.skipped place name)
  | noted {entry : Happening} (notes : entry.Notes) : Drains entry

theorem Call.FailsBy.drains {call : Call} {entry : Happening} {failure : Failure}
    (fails : call.FailsBy entry failure) : entry.Drains := by
  cases fails with
  | failed error => exact .failed _ _ _
  | cancelled abandoned => exact .cancelled _ _ _

namespace World

/-- One world comes after another, and no call fails between them. -/
def Unfailing (w w' : World) : Prop :=
  ∃ later, w'.moments = w.moments ++ later ∧ ∀ m ∈ later, m.happening.failure? = none

/-- One world comes after another, and calls only end between them, without a value. -/
structure Settles (w w' : World) : Prop where
  still : w.toScene.Still w'.toScene
  drains : ∃ later, w'.moments = w.moments ++ later ∧
    ∀ m ∈ later, w.toScene.Still m.toScene ∧ m.happening.Drains

namespace Unfailing

theorem refl (w : World) : w.Unfailing w := ⟨[], (List.append_nil _).symm, nofun⟩

theorem trans {a b c : World} (first : a.Unfailing b) (next : b.Unfailing c) : a.Unfailing c := by
  obtain ⟨xs, eq, clean⟩ := first
  obtain ⟨ys, eq', clean'⟩ := next
  refine ⟨xs ++ ys, by rw [eq', eq, List.append_assoc], fun m mem => ?_⟩
  rcases List.mem_append.1 mem with mem | mem
  · exact clean m mem
  · exact clean' m mem

end Unfailing

namespace Settles

theorem refl (w : World) : w.Settles w := ⟨.refl _, [], (List.append_nil _).symm, nofun⟩

theorem trans {a b c : World} (first : a.Settles b) (next : b.Settles c) : a.Settles c := by
  obtain ⟨still, xs, eq, drains⟩ := first
  obtain ⟨still', ys, eq', drains'⟩ := next
  refine ⟨still.trans still', xs ++ ys, by rw [eq', eq, List.append_assoc], fun m mem => ?_⟩
  rcases List.mem_append.1 mem with mem | mem
  · exact drains m mem
  · obtain ⟨same, ends⟩ := drains' m mem
    exact ⟨still.trans same, ends⟩

theorem of_emit {w : World} {happening : Happening} (drains : happening.Drains) :
    w.Settles (w.emit happening) := by
  refine ⟨.refl _, _, w.moments_emit happening, fun m mem => ?_⟩
  cases List.mem_singleton.1 mem
  exact ⟨.refl _, drains⟩

theorem of_stirs {w w' : World} (stirs : w.Stirs w') : w.Settles w' := by
  cases stirs
  exact ⟨⟨rfl, rfl, rfl⟩, [], (List.append_nil _).symm, nofun⟩

theorem of_observe (mode : FailureMode) (place : Position) (earlier : List Failure)
    (remaining : Nat) (failure : Failure) (w : World) :
    w.Settles (observe mode place earlier remaining failure w) := by
  rcases observe_notes mode place earlier remaining failure w with same | notes
  · rw [same]
    exact .refl w
  · obtain ⟨mid, entry, tells, eq, noted⟩ := notes.emits
    rw [eq]
    exact trans (.of_stirs (.of_tells tells)) (.of_emit (.noted noted))

end Settles

end World

namespace Flight

variable {setting : Setting} {a b : Flight}

theorem Tick.unfailing (tick : Tick setting .calm a b) : a.world.Unfailing b.world := by
  cases tick with
  | @send place invocation w todo calls called live =>
    refine ⟨_, Call.moments_sent setting place invocation w, fun m mem => ?_⟩
    cases List.mem_singleton.1 mem
    rfl
  | stir _ stirs =>
    cases stirs
    exact .refl _
  | sleep same => exact .refl _
  | @complete call w todo calls output live =>
    refine ⟨_, call.moments_complete w output, fun m mem => ?_⟩
    cases List.mem_singleton.1 mem
    rfl
  | fail late fails => exact absurd rfl late
  | pass instant => exact .refl _
  | skip late => exact absurd rfl late

theorem Tick.settles (tick : Tick setting .drain a b) : a.world.Settles b.world := by
  cases tick with
  | stir _ stirs => exact .of_stirs stirs
  | fail _ fails => exact .of_emit fails.drains
  | skip _ => exact .of_emit (.skipped _ _)
  | forget lost => exact .refl _
  | note notes => exact .of_emit (.noted notes)

theorem Calm.unfailing (calm : Calm setting a b) : a.world.Unfailing b.world := by
  induction calm with
  | refl => exact .refl _
  | tail _ last ih => exact ih.trans last.unfailing

theorem Drains.settles (drains : Drains setting a b) : a.world.Settles b.world := by
  induction drains with
  | refl => exact .refl _
  | tail _ last ih => exact ih.trans last.settles

theorem Move.drains_settles (drains : Phase.Drains (Move setting) a b) :
    a.world.Settles b.world := by
  induction drains with
  | refl => exact .refl _
  | tail _ last ih => exact ih.trans (Drains.settles last.ticks)

/-- A run that fails comes to a point before which no call fails and after which nothing changes. -/
theorem Falls.settles (falls : Falls setting a b) :
    ∃ mid, a.world.Unfailing mid ∧ mid.Settles b.world := by
  obtain ⟨before, after, calm, fall, drains⟩ := falls
  -- The first failure belongs to what drains. Only when the token is cancelled from outside does the
  -- clock still move, to the instant of the cancellation.
  have quiet := calm.unfailing
  have drained := drains.settles
  cases fall with
  | stir even _ => exact absurd rfl even
  | fail _ fails => exact ⟨_, quiet, .trans (.of_emit fails.drains) drained⟩
  | interrupt instant =>
    refine ⟨_, ?_, drained⟩
    exact quiet
  | skip _ => exact ⟨_, quiet, .trans (.of_emit (.skipped _ _)) drained⟩

end Flight

theorem Part.Unwinds.settled {setting : Setting} {part : Part} {place : Position} {w w' : World}
    {outcome : Outcome} (h : Unwinds setting part place w w' outcome) : w.Settles w' :=
  Flight.Move.drains_settles (h.drains 0 0)

theorem split_at_first {α : Type} {kind : α → Prop} {clean later before after : List α} {first : α}
    (split : clean ++ later = before ++ first :: after) (none : ∀ a ∈ clean, ¬ kind a)
    (found : kind first) : ∃ rest, before = clean ++ rest ∧ later = rest ++ first :: after := by
  rcases List.append_eq_append_iff.1 split with ⟨rest, eq, tail⟩ | ⟨rest, eq, tail⟩
  · exact ⟨rest, eq, tail⟩
  · cases rest with
    | nil => exact ⟨[], by rw [eq, List.append_nil, List.append_nil], tail.symm⟩
    | cons head rest =>
      obtain ⟨rfl, -⟩ := List.cons.inj tail
      exact absurd found (none first (eq ▸ List.mem_append_right _ List.mem_cons_self))

theorem events_of_drains {trace : Trace} (drains : ∀ h ∈ trace, h.Drains) (id : String) :
    ∃ ended : List (CallId × String),
      Event.ofTrace id trace = ended.map (fun call => .invocationFailed id call.1.2 call.2) ∧
      trace.closed = ↑(ended.map (·.1)) := by
  induction trace with
  | nil => exact ⟨[], rfl, rfl⟩
  | cons head rest ih =>
    obtain ⟨ended, told, closed⟩ := ih fun h mem => drains h (List.mem_cons_of_mem _ mem)
    have eq : Trace.closed (head :: rest) = Trace.closed [head] + Trace.closed rest :=
      Trace.closed_append [head] rest
    cases drains head List.mem_cons_self with
    | failed place name error =>
      refine ⟨((place, name), (Failure.invocation name error).message) :: ended, ?_, ?_⟩
      · rw [List.map_cons, ← told]
        rfl
      · rw [eq, closed]
        rfl
    | cancelled place name abandoned =>
      refine ⟨((place, name), Failure.cancelled.message) :: ended, ?_, ?_⟩
      · rw [List.map_cons, ← told]
        rfl
      · rw [eq, closed]
        rfl
    | skipped place name =>
      refine ⟨ended, told, ?_⟩
      rw [eq, closed]
      rfl
    | noted notes =>
      cases notes <;>
      · refine ⟨ended, told, ?_⟩
        rw [eq, closed]
        rfl

namespace Run

/-- How a run goes on from a moment: it changes nothing any more and lets the calls in flight end. -/
structure EndsFrom (run : Run) (id : String) (before : List Moment) (first : Moment)
    (after : List Moment) : Prop where
  still : ∀ m ∈ after, first.toScene.Still m.toScene
  store : run.store = first.store
  elapsed : run.elapsed = first.clock
  called : run.called = first.called
  calls : Trace.calls (.ofMoments after) = []
  /-- The events tell of the calls in flight, each of which ends without a value, and at last of the
  failure of the run. -/
  events : ∃ failure, ∃ ended : List (CallId × String),
    run.outcome = .error failure ∧
    run.events id = Event.ofTrace id (.ofMoments (before ++ [first])) ++
      (ended.map (fun call => .invocationFailed id call.1.2 call.2) ++
        [.workflowFailed id failure.message]) ∧
    ↑(ended.map (·.1)) = Trace.inFlight (.ofMoments (before ++ [first]))

end Run

theorem calls_of_drains {trace : Trace} (drains : ∀ h ∈ trace, h.Drains) : trace.calls = [] := by
  refine List.filterMap_eq_nil_iff.2 fun h mem => ?_
  cases drains h mem with
  | noted notes => cases notes <;> rfl
  | _ => rfl

theorem opened_of_drains {trace : Trace} (drains : ∀ h ∈ trace, h.Drains) : trace.opened = 0 := by
  have none : trace.filterMap Happening.opened? = [] := by
    refine List.filterMap_eq_nil_iff.2 fun h mem => ?_
    cases drains h mem with
    | noted notes => cases notes <;> rfl
    | _ => rfl
  rw [Trace.opened, none]
  rfl

-- A run starts with an entry that is about no call.
theorem Workflow.unfailing_moments {workflow : Workflow} {called : List String} {cancelled : Bool}
    {w : World} (quiet : (workflow.world called cancelled).Unfailing w) :
    ∀ m ∈ w.moments, ¬ m.happening.failure? ≠ none := by
  obtain ⟨later, eq, clean⟩ := quiet
  intro m mem
  rw [eq] at mem
  rcases List.mem_append.1 mem with mem | mem
  · cases List.mem_singleton.1 mem
    exact not_not.2 rfl
  · exact not_not.2 (clean m mem)

/-- The first failure is one of the moments in which a world settles, and so is all that follows. -/
theorem World.Settles.after_first {mid w : World} (settles : mid.Settles w)
    (quiet : ∀ m ∈ mid.moments, ¬ m.happening.failure? ≠ none) {before last : List Moment}
    {first : Moment} (split : w.moments = before ++ first :: last)
    (fails : first.happening.failure? ≠ none) :
    first.toScene.Still w.toScene ∧
      ∀ m ∈ last, first.toScene.Still m.toScene ∧ m.happening.Drains := by
  obtain ⟨still, later, eq, drains⟩ := settles
  obtain ⟨rest, -, rfl⟩ := split_at_first (eq.symm.trans split) quiet fails
  obtain ⟨here, -⟩ := drains first (List.mem_append_right _ List.mem_cons_self)
  refine ⟨here.symm.trans still, fun m mem => ?_⟩
  obtain ⟨same, ends⟩ := drains m (List.mem_append_right _ (List.mem_cons_of_mem _ mem))
  exact ⟨here.symm.trans same, ends⟩

/-- From its first failed or cancelled call on, a run does nothing but end. -/
theorem Workflow.run_fails_fast (workflow : Workflow) (setting : Setting)
    (cancellation : Cancellation) (called : List String) (id : String) {before after : List Moment}
    {first : Moment}
    (found : (workflow.run setting cancellation called).FirstFailure id before first after) :
    (workflow.run setting cancellation called).EndsFrom id before first after := by
  have balanced := workflow.run_balanced setting cancellation called
  have events := workflow.run_events setting cancellation called id
  obtain ⟨w, outcome, eq, leads⟩ := workflow.run_leads setting cancellation called
  rw [eq] at found balanced events ⊢
  obtain ⟨last, rfl, split⟩ := found.before_closing
  cases outcome with
  | ok =>
    -- Nothing fails in a run that ends well.
    refine absurd found.failing (unfailing_moments leads.unfailing first ?_)
    exact split ▸ List.mem_append_right _ List.mem_cons_self
  | error failure =>
    obtain ⟨mid, quiet, settles⟩ := leads.settles
    obtain ⟨ends, later⟩ := settles.after_first (unfailing_moments quiet) split found.failing
    have drains : ∀ h ∈ Trace.ofMoments last, h.Drains := by
      intro h mem
      obtain ⟨m, here, rfl⟩ := List.mem_map.1 mem
      exact (later m here).2
    obtain ⟨ended, told, closed⟩ := events_of_drains drains id
    constructor
    case still =>
      intro m mem
      rcases List.mem_append.1 mem with mem | mem
      · exact (later m mem).1
      · cases List.mem_singleton.1 mem
        exact ends
    case store => exact ends.store
    case elapsed => exact ends.clock
    case called => exact ends.called
    case calls =>
      rw [Trace.ofMoments_append, Trace.calls, List.filterMap_append]
      exact List.append_eq_nil_iff.2 ⟨calls_of_drains drains, rfl⟩
    case events =>
      refine ⟨failure, ended, rfl, ?_, ?_⟩
      · rw [events, Run.trace, found.split, List.append_cons, Trace.ofMoments_append,
          Trace.ofMoments_append last, Event.ofTrace, List.filterMap_append, List.filterMap_append,
          ← Event.ofTrace, ← Event.ofTrace, told]
        rfl
      · -- All calls have ended when the run is over, and none has started after the failure.
        rw [Run.trace, found.split, List.append_cons, Trace.ofMoments_append] at balanced
        rw [Trace.inFlight_eq_closed balanced, Trace.ofMoments_append, Trace.closed_append, closed]
        · exact (add_zero _).symm
        · rw [Trace.ofMoments_append, Trace.opened_append, opened_of_drains drains]
          rfl

/-- A call that waits, next to a call of a unit that the host does not know. -/
def Workflow.pair : Workflow :=
  .ofTree .empty (.parallel [.invocation { name := "slow" }, .invocation { name := "missing" }])

def Setting.knowingSlow : Setting where
  host := ⟨[("slow", .scripted [[.delay 5]])], false⟩

theorem Workflow.pair_fails_fast : ∃ before first after,
    first.happening = .failed [1] "missing" (.notRegistered "missing") ∧
    Trace.inFlight (.ofMoments (before ++ [first])) = {([0], "slow")} ∧
    (pair.run .knowingSlow {} []).EndsFrom "pair" before first after := by
  let first : Moment := { store := .empty, called := ["slow"], timers := 1,
                          happening := .failed [1] "missing" (.notRegistered "missing") }
  obtain ⟨moments, ran, split, earliest, flying⟩ : ∃ moments,
      (pair.run .knowingSlow {} []).moments = moments ∧
      moments = moments.take 3 ++ first :: moments.drop 4 ∧
      (∀ m ∈ moments.take 3, m.happening.failure? = none) ∧
      Trace.inFlight (.ofMoments (moments.take 3 ++ [first])) = {([0], "slow")} :=
    ⟨_, congrArg Run.moments (run_of_after 1 rfl), rfl, by decide, by decide⟩
  refine ⟨moments.take 3, first, moments.drop 4, rfl, flying, ?_⟩
  exact run_fails_fast pair .knowingSlow {} [] "pair" ⟨ran.trans split, ⟨"missing", _, rfl⟩,
    fun m mem => (Happening.failure?_eq_none "pair").1 (earliest m mem)⟩

end FlowTree

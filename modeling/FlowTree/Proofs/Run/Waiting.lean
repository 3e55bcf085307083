import FlowTree.Proofs.Run.Entries
import FlowTree.Proofs.Run.Timers

/-! The states of a run between two polls. A root that is not to be polled at once awaits timers: each of
its branches has ended or waits in a call of which all timers are still to fire. A timer that fires puts
every branch into its queue that it is for, so no timer is passed over, and time can always move. It never
moves back. -/

set_option autoImplicit false

namespace FlowTree

/-- A task with nothing to poll at an instant, in calls of which all timers are still to fire. -/
def Task.Awaits (clock : Nat) (task : Task) : Prop :=
  task.Rests fun call => clock < call.nextInstant

theorem Call.pending_of_not_due {call : Call} {instant : Nat} (idle : call.dueAt instant = none) :
    instant < call.nextInstant := by
  unfold dueAt at idle
  unfold nextInstant
  rw [List.min?_eq_none_iff, List.append_eq_nil_iff] at idle
  obtain ⟨wake, timeout⟩ := idle
  have sleeps : instant < call.wake.due := by
    refine Nat.lt_of_not_le fun due => ?_
    rw [if_pos due] at wake
    cases wake
  cases expiry : call.expiry with
  | none => exact sleeps
  | some timer =>
    refine Nat.lt_min.2 ⟨sleeps, Nat.lt_of_not_le fun due => ?_⟩
    rw [expiry] at timeout
    simp only [if_pos due] at timeout
    cases timeout

namespace Task

variable {setting : Setting} {task : Task} {clock instant : Nat}

theorem Rests.calls {p : Call → Prop} (rests : task.Rests p) : ∀ call ∈ task.part.calls, p call := by
  induction rests with
  | calling holds =>
    intro call mem
    rwa [Multiset.mem_singleton.1 mem]
  | sequence _ ih =>
    rw [part, Part.calls_sequence]
    exact ih
  | @block branches handedBack _ live ih =>
    intro call mem
    obtain ⟨p, found, within⟩ := Part.mem_callsAll.1 mem
    rw [parts_eq_map] at found
    obtain ⟨t, here, rfl⟩ := List.mem_map.1 found
    refine ih t here (Bool.eq_false_iff.2 fun gone => ?_) call within
    rw [part_of_hasEnded gone] at within
    exact absurd within (Multiset.notMem_zero call)

/-- Time can always move: the next timer of a task that awaits timers is still to fire. -/
theorem Awaits.next (awaits : task.Awaits clock) : ∃ instant, task.nextInstant = some instant ∧
    clock < instant ∧ FirstTimer task.part.calls instant := by
  have searched := task.nextInstant_searched
  cases found : task.nextInstant with
  | none =>
    rw [found] at searched
    cases searched with
    | none idle => exact absurd idle (Rests.busy awaits).begun.calls_ne_zero
  | some instant =>
    rw [found] at searched
    cases searched with
    | some first =>
      obtain ⟨call, mem, rfl⟩ := first.found
      exact ⟨_, rfl, Rests.calls awaits call mem, first⟩

theorem Poised.trivially {p : Call → Prop} (poised : task.Poised p) : task.Poised fun _ => True :=
  poised.imp fun _ _ => trivial

/-- Polls keep the clock, and a call that is polled and waits waits for timers that are still to fire. -/
theorem kept_clock (setting : Setting) (clock : Nat) :
    Kept setting (fun call => clock < call.nextInstant) (·.clock = clock) where
  world polls poised now := (polls.proceeds poised.trivially).clock.trans now
  started now started := now ▸ Call.start_later started
  resumed now resumed := now ▸ Call.resume_later resumed

theorem Rests.wake_at {p : Call → Prop} (rests : task.Rests p) (instant : Nat) :
    (task.wake instant).Poised fun call => instant < call.nextInstant :=
  rests.wake fun _ _ => Call.pending_of_not_due

end Task

namespace Machine

variable {setting : Setting} {cancelAt : Option Nat} {w : World} {task : Task} {instant : Nat}

/-- A root that waits, between two polls. -/
structure OnTime (w : World) (task : Task) : Prop where
  paused : task.Paused fun call => w.clock < call.nextInstant
  timely : ∀ call ∈ task.part.calls, w.clock ≤ call.nextInstant

theorem onTime_fresh (w : World) (root : Statement) : OnTime w (.fresh root) where
  paused := Task.paused_fresh _ root
  timely call mem := by
    rw [Task.part, root.calls_part] at mem
    exact absurd mem (Multiset.notMem_zero call)

/-- A root that awaits timers, and the instant to which time moves next. -/
structure Due (w : World) (task : Task) (instant : Nat) : Prop where
  awaits : task.Awaits w.clock
  asleep : task.woken = false
  next : task.nextInstant = some instant
  later : w.clock < instant
  first : FirstTimer task.part.calls instant

theorem OnTime.awaits (onTime : OnTime w task) (asleep : task.woken = false) : task.Awaits w.clock :=
  onTime.paused.rests asleep

theorem OnTime.due (onTime : OnTime w task) (asleep : task.woken = false) :
    ∃ instant, Due w task instant := by
  have awaits := onTime.awaits asleep
  obtain ⟨instant, found, later, first⟩ := awaits.next
  exact ⟨instant, awaits, asleep, found, later, first⟩

/-- A run that awaits timers goes on at the next instant, unless its token is to be cancelled by then. -/
theorem Due.next_eq (due : Due w task instant)
    (early : ∀ deadline, cancelAt = some deadline → instant < deadline) :
    Machine.next setting cancelAt w task = pass setting w task instant := by
  unfold Machine.next
  rw [if_neg (Bool.eq_false_iff.1 due.asleep), due.next]
  cases cancelAt with
  | none => rfl
  | some deadline => exact if_neg (Nat.not_le_of_lt (early deadline rfl))

theorem Due.next_cut {deadline : Nat} (due : Due w task instant) (passed : deadline ≤ instant) :
    Machine.next setting (some deadline) w task = cancel setting w task deadline := by
  unfold Machine.next
  rw [if_neg (Bool.eq_false_iff.1 due.asleep), due.next]
  exact if_pos passed

/-- How a root goes on with which nothing interferes: at once if it asks for it, or when its next timers
fire. -/
inductive GoesOn (cancelAt : Option Nat) (w : World) (task : Task) : Nat → Task → Prop where
  | again (woken : task.woken = true) (onTime : OnTime w task) : GoesOn cancelAt w task w.clock task
  | fires {instant : Nat} (due : Due w task instant)
    (early : ∀ deadline, cancelAt = some deadline → instant < deadline) :
    GoesOn cancelAt w task instant (task.wake instant)

namespace GoesOn

variable {ready new : Task} {w' : World} {progress : Progress} {place : Position}

theorem next_eq (goes : GoesOn cancelAt w task instant ready) : next setting cancelAt w task =
    ofProgress (ready.poll setting [] { w with clock := instant }) := by
  cases goes with
  | again woken => exact next_of_woken woken
  | fires due early => exact due.next_eq early

theorem least (goes : GoesOn cancelAt w task instant ready) :
    ∀ call ∈ task.part.calls, instant ≤ call.nextInstant := by
  cases goes with
  | again _ onTime => exact onTime.timely
  | fires due => exact due.first.least

theorem part_eq (goes : GoesOn cancelAt w task instant ready) : ready.part = task.part := by
  cases goes with
  | again => rfl
  | fires => exact Task.wake_part _ task

theorem poised (goes : GoesOn cancelAt w task instant ready) :
    ready.Poised fun call => instant < call.nextInstant := by
  cases goes with
  | again _ onTime => exact onTime.paused.poised
  | fires due => exact due.awaits.wake_at _

theorem proceeds (goes : GoesOn cancelAt w task instant ready)
    (polled : ready.poll setting place { w with clock := instant } = (w', progress)) :
    Part.Proceeds setting task.part place { w with clock := instant } w' progress :=
  goes.part_eq ▸ Task.poll_proceeds goes.poised.trivially polled

theorem onTime (goes : GoesOn cancelAt w task instant ready)
    (polled : ready.poll setting place { w with clock := instant } = (w', .waiting new)) :
    OnTime w' new := by
  have turn := goes.proceeds polled
  have clock : w'.clock = instant := turn.clock
  refine ⟨?_, clock.symm ▸ turn.timely goes.least⟩
  rw [clock]
  exact (Task.poll_polls polled).paused (Task.kept_clock setting instant) goes.poised rfl

end GoesOn

/-- A root that waits is cut off, or it goes on. -/
theorem OnTime.cases (onTime : OnTime w task) (cancelAt : Option Nat) :
    (∃ instant deadline, Due w task instant ∧ cancelAt = some deadline ∧ deadline ≤ instant) ∨
      ∃ instant ready, GoesOn cancelAt w task instant ready := by
  cases woken : task.woken with
  | true => exact .inr ⟨_, _, .again woken onTime⟩
  | false =>
    obtain ⟨instant, due⟩ := onTime.due woken
    cases cancelAt with
    | none => exact .inr ⟨_, _, .fires due nofun⟩
    | some deadline =>
      rcases Nat.lt_or_ge instant deadline with early | passed
      · exact .inr ⟨_, _, .fires due fun _ set => Option.some.inj set ▸ early⟩
      · exact .inl ⟨instant, deadline, due, rfl, passed⟩

theorem OnTime.next (onTime : OnTime w task) {mid : World} {later : Task}
    (step : next setting cancelAt w task = .waiting mid later) :
    ∃ instant ready, GoesOn cancelAt w task instant ready ∧
      ready.poll setting [] { w with clock := instant } = (mid, .waiting later) ∧ OnTime mid later := by
  rcases onTime.cases cancelAt with ⟨instant, deadline, due, rfl, passed⟩ | ⟨instant, ready, goes⟩
  · cases step.symm.trans (due.next_cut passed)
  · have polled := ofProgress_waiting (goes.next_eq.symm.trans step)
    exact ⟨instant, ready, goes, polled, goes.onTime polled⟩

-- Induction over the polls of a run: it is cut off while it awaits timers, it ends with the next poll, or
-- it waits again and goes on from there.
theorem finish_induction {motive : World → Task → World × Outcome → Prop}
    (cut : ∀ {w task instant deadline}, Due w task instant → cancelAt = some deadline →
      deadline ≤ instant → motive w task
        ((task.wake (max w.clock deadline)).unwind setting []
          { w with clock := max w.clock deadline, cancelled := true }))
    (ended : ∀ {w task instant ready w' outcome}, GoesOn cancelAt w task instant ready →
      ready.poll setting [] { w with clock := instant } = (w', .ended outcome) →
      motive w task (w', outcome))
    (waits : ∀ {w task instant ready mid later}, GoesOn cancelAt w task instant ready →
      ready.poll setting [] { w with clock := instant } = (mid, .waiting later) →
      OnTime mid later → motive mid later (finish setting cancelAt mid later) →
      motive w task (finish setting cancelAt mid later))
    (onTime : OnTime w task) : motive w task (finish setting cancelAt w task) := by
  fun_induction finish setting cancelAt w task with
  | case1 w task last outcome stepped =>
    rcases onTime.cases cancelAt with ⟨instant, deadline, due, rfl, passed⟩ | ⟨instant, ready, goes⟩
    · obtain ⟨rfl, rfl⟩ := Machine.ended.inj (stepped.symm.trans (due.next_cut passed))
      exact cut due rfl passed
    · exact ended goes (ofProgress_ended (goes.next_eq.symm.trans stepped))
  | case2 w task mid later stepped ih =>
    obtain ⟨instant, ready, goes, polled, left⟩ := onTime.next stepped
    exact waits goes polled left (ih left)

end Machine

/-- One world comes after another, and nothing between them happens before the first one. -/
structure World.Onward (w w' : World) : Prop where
  clock : w.clock ≤ w'.clock
  moments : ∃ later, w'.moments = w.moments ++ later ∧ ∀ m ∈ later, w.clock ≤ m.clock

namespace World.Onward

variable {a b c : World}

theorem refl (w : World) : w.Onward w := ⟨Nat.le_refl _, [], (List.append_nil _).symm, nofun⟩

theorem trans (first : a.Onward b) (next : b.Onward c) : a.Onward c := by
  obtain ⟨le, xs, eq, early⟩ := first
  obtain ⟨le', ys, eq', late⟩ := next
  refine ⟨le.trans le', xs ++ ys, by rw [eq', eq, List.append_assoc], fun m mem => ?_⟩
  rcases List.mem_append.1 mem with mem | mem
  · exact early m mem
  · exact le.trans (late m mem)

theorem of_same (clock : a.clock ≤ b.clock) (moments : b.moments = a.moments) : a.Onward b :=
  ⟨clock, [], by rw [moments, List.append_nil], nofun⟩

theorem of_added {m : Moment} (clock : a.clock ≤ b.clock) (moments : b.moments = a.moments ++ [m])
    (late : a.clock ≤ m.clock) : a.Onward b :=
  ⟨clock, [m], moments, fun _ mem => List.mem_singleton.1 mem ▸ late⟩

theorem of_emit (w : World) (happening : Happening) : w.Onward (w.emit happening) :=
  .of_added (Nat.le_refl _) (w.moments_emit happening) (Nat.le_refl _)

end World.Onward

theorem World.Stirs.onward {w w' : World} (stirs : w.Stirs w') : w.Onward w' :=
  .of_same (Nat.le_of_eq stirs.clock.symm) stirs.moments

theorem Call.Lands.onward {call : Call} {w w' : World} {state : Call ⊕ Outcome}
    (lands : call.Lands w w' state) : w.Onward w' := by
  cases lands with
  | asleep => exact .refl w
  | completed output live =>
    have clock := w.clock_write call.result output
    exact .of_added (Nat.le_of_eq clock.symm) (call.moments_complete w output) (Nat.le_of_eq clock.symm)
  | failed fails => exact .of_emit w _

namespace Flight

open FlowTree.World (Onward)

variable {setting : Setting} {cancelAt : Option Nat} {phase : Phase} {a b : Flight}

theorem Move.onward (move : Move setting phase a b) : a.world.Onward b.world := by
  cases move with
  | @start place invocation w w' state todo calls live started =>
    obtain ⟨called, mid, stirs, lands⟩ := Call.start_lands started
    have sent : w.Onward (Call.sent setting place invocation w) :=
      .of_added (Nat.le_refl _) (Call.moments_sent setting place invocation w) (Nat.le_refl _)
    have counted : Onward (Call.sent setting place invocation w)
        { Call.sent setting place invocation w with called } := .of_same (Nat.le_refl _) rfl
    exact sent.trans (counted.trans (stirs.onward.trans lands.onward))
  | resume resumed =>
    obtain ⟨mid, stirs, lands⟩ := Call.resume_lands resumed
    exact stirs.onward.trans lands.onward
  | unwind unwound =>
    obtain ⟨mid, entry, stirs, rfl, -⟩ := Call.unwind_fails unwound
    exact stirs.onward.trans (.of_emit mid entry)
  | @skip _ place invocation w => exact .of_added (Nat.le_refl _) (w.moments_emit _) (Nat.le_refl _)
  | forget => exact .refl _
  | note notes =>
    obtain ⟨mid, entry, tells, rfl, -⟩ := notes.emits
    exact (World.Stirs.of_tells tells).onward.trans (.of_emit mid entry)

theorem Stride.onward (stride : Stride setting cancelAt phase a b) (timely : Timely a) :
    a.world.Onward b.world := by
  have clock := stride.clock_le timely
  cases stride with
  | move move => exact move.onward
  | pass => exact .of_same clock rfl
  | interrupt => exact .of_same clock rfl

end Flight

theorem Part.Proceeds.onward {setting : Setting} {part : Part} {place : Position} {w w' : World}
    {progress : Progress} (h : Proceeds setting part place w w' progress) : w.Onward w' :=
  (h.leads 0 0).keeps (motive := fun flight => w.Onward flight.world)
    (fun move onward => onward.trans move.onward) (.refl w)

theorem Machine.finish_onward {setting : Setting} (cancelAt : Option Nat) {w : World} {task : Task}
    (onTime : OnTime w task) : w.Onward (finish setting cancelAt w task).1 := by
  have timely : Flight.Timely ⟨w, task.part.todo [], task.part.calls⟩ := onTime.timely
  exact ((finish_leads setting cancelAt w (onTime.paused.imp fun _ _ => trivial)).keeps
    (motive := fun flight => flight.Timely ∧ w.Onward flight.world)
    (fun stride kept => ⟨stride.timely kept.1, kept.2.trans (stride.onward kept.1)⟩)
    ⟨timely, .refl w⟩).2

end FlowTree

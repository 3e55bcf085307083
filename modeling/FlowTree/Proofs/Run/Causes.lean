import FlowTree.Proofs.Run.Accounts
import FlowTree.Proofs.Run.Timers

/-! Why the caller's token is cancelled. It is cancelled by the caller, before the run or at an instant,
or by the script of a call in flight, and by nothing else; in particular not by a block that fails. -/

set_option autoImplicit false

namespace FlowTree

namespace Script

/-- Whether a script cancels the caller's token in some milliseconds from its start. -/
def cancelsWithin : Script → Nat → Bool
  | [], _ => false
  | .delay ms :: rest, time => decide (ms ≤ time) && cancelsWithin rest (time - ms)
  | .cancel :: _, _ => true
  | _ :: _, _ => false

variable {echo : String} {script rest : Script} {ms time : Nat}

theorem cancelsWithin_of_goOn (cancels : (script.goOn echo).1 = true) :
    script.cancelsWithin 0 = true := by
  induction script with
  | nil => cases cancels
  | cons step script ih =>
    cases step with
    | delay time =>
      rw [goOn] at cancels
      split at cancels
      · next zero =>
        simp only [cancelsWithin, zero, Nat.le_refl, decide_true, Bool.true_and, Nat.sub_zero]
        exact ih cancels
      · cases cancels
    | cancel => rfl
    | give | echo | fail | timeout | notRegistered => cases cancels

theorem cancelsWithin_of_asleep (sleeps : (script.goOn echo).2 = .asleep ms rest)
    (cancels : rest.cancelsWithin time = true) : script.cancelsWithin (ms + time) = true := by
  induction script with
  | nil => cases sleeps
  | cons step script ih =>
    cases step with
    | delay first =>
      rw [goOn] at sleeps
      split at sleeps
      · next zero =>
        simp only [cancelsWithin, zero, Nat.zero_le, decide_true, Bool.true_and, Nat.sub_zero]
        exact ih sleeps
      · cases sleeps
        simp only [cancelsWithin, Nat.le_add_right, decide_true, Bool.true_and,
          Nat.add_sub_cancel_left]
        exact cancels
    | cancel => rfl
    | give | echo | fail | timeout | notRegistered => cases sleeps

end Script

/-- At a moment a call goes out whose script cancels the caller's token at an instant or before. -/
def Moment.Cancels (setting : Setting) (call : CallId) (instant : Nat) (m : Moment) : Prop :=
  ∃ inputs timeout work time, m.happening = .started call.1 call.2 inputs timeout ∧
    setting.host.find? call.2 = some work ∧ m.clock + time ≤ instant ∧
    (work.script (m.called.count call.2) inputs).cancelsWithin time = true

/-- What can have cancelled the caller's token in a run so far. -/
inductive Caused (setting : Setting) (cancellation : Cancellation) (moments : List Moment)
    (clock : Nat) : Prop where
  | before (set : cancellation.before = true)
  | due {deadline : Nat} (set : cancellation.at? = some deadline) (passed : deadline ≤ clock)
  /-- A call that had not ended before the token was cancelled. -/
  | unit {earlier between : List Moment} {m : Moment} {call : CallId}
    (split : moments = earlier ++ m :: between) (cancels : m.Cancels setting call clock)
    (inFlight : ∀ x ∈ between, x.happening.closed? = some call → x.cancelled = true)

variable {setting : Setting} {cancellation : Cancellation} {moments : List Moment}

theorem Moment.Cancels.later {call : CallId} {clock instant : Nat} {m : Moment}
    (cancels : m.Cancels setting call clock) (le : clock ≤ instant) :
    m.Cancels setting call instant := by
  obtain ⟨inputs, timeout, work, time, starts, found, due, cancels⟩ := cancels
  exact ⟨inputs, timeout, work, time, starts, found, Nat.le_trans due le, cancels⟩

namespace Caused

variable {clock instant : Nat}

theorem later (caused : Caused setting cancellation moments clock) (le : clock ≤ instant) :
    Caused setting cancellation moments instant := by
  cases caused with
  | before set => exact .before set
  | due set passed => exact .due set (Nat.le_trans passed le)
  | unit split cancels inFlight => exact .unit split (cancels.later le) inFlight

theorem concat (caused : Caused setting cancellation moments clock) {m : Moment}
    (late : m.cancelled = true) : Caused setting cancellation (moments ++ [m]) clock := by
  cases caused with
  | before set => exact .before set
  | due set passed => exact .due set passed
  | unit split cancels inFlight =>
    refine .unit (by rw [split, List.append_assoc]; rfl) cancels fun x mem ends => ?_
    rcases List.mem_append.1 mem with mem | mem
    · exact inFlight x mem ends
    · cases List.mem_singleton.1 mem
      exact late

end Caused

/-- There is a cause whenever the caller's token is cancelled, now or at an earlier moment. -/
structure World.Warranted (setting : Setting) (cancellation : Cancellation) (w : World) : Prop where
  token : w.cancelled = true → Caused setting cancellation w.moments w.clock
  history : ∀ before m after, w.moments = before ++ m :: after → m.cancelled = true →
    Caused setting cancellation before m.clock

/-- A call went out whose script cancels the caller's token when these steps do that start at an
instant. -/
def World.Sends (setting : Setting) (w : World) (call : CallId) (steps : Script) (start : Nat) :
    Prop :=
  ∃ earlier m between, w.moments = earlier ++ m :: between ∧
    ∀ time, steps.cancelsWithin time = true → m.Cancels setting call (start + time)

namespace World

variable {w w' : World} {call : CallId} {steps : Script} {start : Nat}

namespace Warranted

theorem of_same (warranted : w.Warranted setting cancellation) (moments : w'.moments = w.moments)
    (clock : w'.clock = w.clock) (token : w'.cancelled = w.cancelled) :
    w'.Warranted setting cancellation := by
  constructor
  · rw [token, moments, clock]
    exact warranted.token
  · rw [moments]
    exact warranted.history

theorem emit (warranted : w.Warranted setting cancellation) (happening : Happening) :
    (w.emit happening).Warranted setting cancellation := by
  constructor
  · intro late
    rw [moments_emit]
    exact (warranted.token late).concat late
  · intro before m after split late
    rw [moments_emit] at split
    rcases split_concat split with ⟨rfl, rfl, -⟩ | ⟨rest, -, inside⟩
    · exact warranted.token late
    · exact warranted.history before m rest inside late

theorem tell (warranted : w.Warranted setting cancellation) (tells : w.Tells w') :
    w'.Warranted setting cancellation := by
  cases tells
  exact warranted.of_same rfl rfl rfl

end Warranted

theorem Sends.grow (sends : w.Sends setting call steps start) {more : List Moment}
    (grown : w'.moments = w.moments ++ more) : w'.Sends setting call steps start := by
  obtain ⟨earlier, m, between, split, cancels⟩ := sends
  refine ⟨earlier, m, between ++ more, ?_, cancels⟩
  rw [grown, split, List.append_assoc]
  rfl

theorem Sends.later {instant : Nat} (sends : w.Sends setting call steps start)
    (le : start ≤ instant) : w.Sends setting call steps instant := by
  obtain ⟨earlier, m, between, split, cancels⟩ := sends
  exact ⟨earlier, m, between, split, fun time within =>
    (cancels time within).later (Nat.add_le_add_right le time)⟩

theorem Sends.caused (sends : w.Sends setting call steps start)
    (cancels : steps.cancelsWithin 0 = true) (inFlight : call ∉ w.trace.closed) :
    Caused setting cancellation w.moments start := by
  obtain ⟨earlier, m, between, split, within⟩ := sends
  refine .unit split (within 0 cancels) fun x mem ends => ?_
  refine absurd (List.mem_filterMap.2 ⟨x.happening, ?_, ends⟩) inFlight
  refine List.mem_map_of_mem ?_
  rw [split]
  exact List.mem_append_right _ (List.mem_cons_of_mem _ mem)

end World

namespace Call

open FlowTree.World (Warranted Sends)

variable {w w' : World} {call next : Call} {reply : Reply}

theorem advance_warranted {steps : Script} (went : call.advance setting w steps = (w', reply))
    (warranted : w.Warranted setting cancellation)
    (sends : w.Sends setting call.id steps w.clock) (inFlight : call.id ∉ w.trace.closed) :
    w'.Warranted setting cancellation ∧
      ∀ next, reply = .asleep next → w'.Sends setting next.id next.rest next.wake.due := by
  have stirs := advance_stirs setting call w steps
  have token := advance_token setting w call steps
  have replied := advance_shows setting w call steps
  rw [went] at stirs token replied
  constructor
  · constructor
    · intro late
      rw [stirs.moments, stirs.clock]
      rcases Bool.or_eq_true_iff.1 (token.symm.trans late) with already | cancels
      · exact warranted.token already
      · exact sends.caused (Script.cancelsWithin_of_goOn cancels) inFlight
    · rw [stirs.moments]
      exact warranted.history
  · rintro next rfl
    cases replied with
    | @asleep ms _ same sleeps wakes _ _ =>
      obtain ⟨earlier, m, between, split, cancels⟩ := sends
      refine ⟨earlier, m, between, stirs.moments.trans split, fun time within => ?_⟩
      rw [same.id, wakes, Nat.add_assoc]
      exact cancels _ (Script.cancelsWithin_of_asleep sleeps within)

theorem poll_warranted (polled : call.poll setting w = (w', reply))
    (warranted : w.Warranted setting cancellation)
    (sends : w.Sends setting call.id call.rest call.wake.due) (inFlight : call.id ∉ w.trace.closed) :
    w'.Warranted setting cancellation ∧
      ∀ next, reply = .asleep next → w'.Sends setting next.id next.rest next.wake.due := by
  unfold poll at polled
  split at polled
  · next awake => exact advance_warranted polled warranted (sends.later awake) inFlight
  · obtain ⟨rfl, replied⟩ := Prod.mk.inj polled
    refine ⟨warranted, ?_⟩
    rintro next rfl
    rw [await_asleep replied]
    exact sends

theorem Lands.grows {state : Call ⊕ Outcome} (lands : call.Lands w w' state) :
    ∃ more, w'.moments = w.moments ++ more := by
  cases lands with
  | asleep => exact ⟨[], (List.append_nil _).symm⟩
  | completed output live =>
    exact ⟨_, call.moments_complete w output⟩
  | failed => exact ⟨_, w.moments_emit _⟩

theorem Lands.warranted {state : Call ⊕ Outcome} (lands : call.Lands w w' state)
    (warranted : w.Warranted setting cancellation) : w'.Warranted setting cancellation := by
  cases lands with
  | asleep => exact warranted
  | completed output live =>
    have written : (w.write call.result output).Warranted setting cancellation :=
      warranted.of_same (w.moments_write _ _) (w.clock_write _ _) (w.cancelled_write _ _)
    exact (written.tell (.intro _ _)).emit _
  | failed => exact warranted.emit _

end Call

structure Flight.Attributed (setting : Setting) (cancellation : Cancellation) (flight : Flight) :
    Prop where
  warranted : flight.world.Warranted setting cancellation
  traced : ∀ call ∈ flight.calls, flight.world.Sends setting call.id call.rest call.wake.due

namespace Flight

variable {cancelAt : Option Nat} {phase : Phase} {a b : Flight} {w w' : World}
  {todo left : Multiset Site} {calls others : Multiset Call}

theorem Attributed.tell (attributed : Attributed setting cancellation ⟨w, todo, calls⟩)
    (tells : w.Tells w') : Attributed setting cancellation ⟨w', todo, calls⟩ := by
  cases tells
  exact ⟨attributed.warranted.tell (.intro _ _), attributed.traced⟩

theorem Attributed.emit (attributed : Attributed setting cancellation ⟨w, todo, calls⟩)
    (happening : Happening) : Attributed setting cancellation ⟨w.emit happening, left, calls⟩ :=
  ⟨attributed.warranted.emit happening,
    fun call mem => (attributed.traced call mem).grow (w.moments_emit happening)⟩

-- One call goes on, and the others are as they were. What it has set off is known from `goes`.
theorem Attributed.of_call {call : Call} {mid : World} {reply : Call.Reply}
    {state : Call ⊕ Outcome} {more : List Moment}
    (attributed : Attributed setting cancellation ⟨w, todo, calls⟩) (others_le : others ≤ calls)
    (grown : mid.moments = w.moments ++ more)
    (goes : mid.Warranted setting cancellation ∧
      ∀ next, reply = .asleep next → mid.Sends setting next.id next.rest next.wake.due)
    (taken : call.takeReply mid reply = (w', state)) {told : World} (tells : mid.Tells told)
    (lands : call.Lands told w' state) :
    Attributed setting cancellation ⟨w', left, (Progress.ofCall state).calls + others⟩ := by
  obtain ⟨later, further⟩ := lands.grows
  rw [(World.Stirs.of_tells tells).moments] at further
  refine ⟨lands.warranted (goes.1.tell tells), fun other mem => ?_⟩
  rcases Multiset.mem_add.1 mem with mem | mem
  · cases state with
    | inl next =>
      obtain rfl := Multiset.mem_singleton.1 mem
      exact (goes.2 other (Call.takeReply_inl taken)).grow further
    | inr outcome => exact absurd mem (Multiset.notMem_zero other)
  · exact ((attributed.traced other (Multiset.mem_of_le others_le mem)).grow grown).grow further

theorem Attributed.start {place : Position} {invocation : Invocation} {state : Call ⊕ Outcome}
    (attributed : Attributed setting cancellation ⟨w, (place, invocation) ::ₘ todo, calls⟩)
    (fresh : (place, invocation.name) ∉ w.trace.closed)
    (started : Call.start setting place invocation w = (w', state)) :
    Attributed setting cancellation ⟨w', todo, (Progress.ofCall state).calls + calls⟩ := by
  have sent : (Call.sent setting place invocation w).Warranted setting cancellation :=
    (attributed.warranted.tell (.intro _ _)).emit _
  have grown := Call.moments_sent setting place invocation w
  rcases Call.start_cases setting place invocation w with
    ⟨unknown, eq⟩ | ⟨work, mid, reply, known, went, eq⟩
  · have taken := eq.symm.trans started
    have answered {next : Call}
        (asleep : Call.Reply.answered (.error (.notRegistered invocation.name)) = .asleep next) :
        False := by
      cases asleep
    obtain ⟨told, tells, lands⟩ :=
      Call.takeReply_lands (fun _ asleep => (answered asleep).elim) taken
    exact attributed.of_call le_rfl grown ⟨sent, fun _ asleep => (answered asleep).elim⟩ taken
      tells lands
  · have taken := eq.symm.trans started
    have stirs := Call.advance_stirs setting (Call.fresh setting place invocation w)
      (Call.taken setting place invocation w)
      (work.script (w.called.count invocation.name) (w.inputs invocation))
    rw [went] at stirs
    have sends : (Call.taken setting place invocation w).Sends setting (place, invocation.name)
        (work.script (w.called.count invocation.name) (w.inputs invocation)) w.clock :=
      ⟨w.moments, _, [], grown, fun time within =>
        ⟨_, _, work, time, rfl, known, Nat.le_refl _, within⟩⟩
    have goes := Call.advance_warranted went (sent.of_same rfl rfl rfl) sends fun ends => fresh ?_
    · have same (next : Call) (asleep : reply = .asleep next) :
          next.Same (Call.fresh setting place invocation w) :=
        Call.advance_same (asleep ▸ went)
      obtain ⟨told, tells, lands⟩ := Call.takeReply_lands same taken
      exact attributed.of_call le_rfl (stirs.moments.trans grown) goes taken tells lands
    · have closes : (Call.sent setting place invocation w).trace.closed = w.trace.closed :=
        World.closed_emit (World.notify (w.log _) _) rfl
      exact closes ▸ ends

theorem Move.attributed (move : Move setting phase a b) (apart : Apart a)
    (attributed : Attributed setting cancellation a) : Attributed setting cancellation b := by
  cases move with
  | start live started => exact attributed.start (apart.not_closed_of_todo (Multiset.mem_cons_self _ _)) started
  | @resume call w w' state todo calls resumed =>
    rcases polled : call.poll setting w with ⟨mid, reply⟩
    rw [Call.resume, polled] at resumed
    have mem := Multiset.mem_cons_self call calls
    have goes := Call.poll_warranted polled attributed.warranted (attributed.traced call mem)
      (apart.not_closed mem)
    have stirs := Call.poll_stirs setting call w
    rw [polled] at stirs
    have same := stirs.moments.trans (List.append_nil _).symm
    obtain ⟨told, tells, lands⟩ :=
      Call.takeReply_lands (fun next asleep => Call.poll_same (asleep ▸ polled)) resumed
    exact attributed.of_call (Multiset.le_cons_self _ _) same goes resumed tells lands
  | @unwind call w w' failure todo calls unwound =>
    rcases polled : call.poll setting w with ⟨mid, reply⟩
    rw [Call.unwind, polled] at unwound
    have mem := Multiset.mem_cons_self call calls
    obtain ⟨warranted, -⟩ := Call.poll_warranted polled attributed.warranted
      (attributed.traced call mem) (apart.not_closed mem)
    have stirs := Call.poll_stirs setting call w
    rw [polled] at stirs
    obtain ⟨told, entry, dropped, tells, eq, -⟩ := Call.dropReply_fails mid call reply
    obtain ⟨rfl, rfl⟩ := Prod.mk.inj (eq.symm.trans unwound)
    have grown := told.moments_emit entry
    rw [(World.Stirs.of_tells tells).moments, stirs.moments] at grown
    exact ⟨(warranted.tell tells).emit entry, fun other mem =>
      (attributed.traced other (Multiset.mem_cons_of_mem mem)).grow grown⟩
  | skip late => exact (attributed.tell (.intro _ _)).emit _
  | forget lost => exact ⟨attributed.warranted, attributed.traced⟩
  | note notes =>
    obtain ⟨mid, entry, tells, rfl, -⟩ := notes.emits
    exact (attributed.tell tells).emit entry

theorem Stride.attributed (stride : Stride setting cancellation.at? phase a b) (apart : Apart a)
    (timely : Timely a) (attributed : Attributed setting cancellation a) :
    Attributed setting cancellation b := by
  have later := stride.clock_le timely
  cases stride with
  | move move => exact move.attributed apart attributed
  | pass first early =>
    refine ⟨⟨fun late => ?_, attributed.warranted.history⟩, attributed.traced⟩
    exact (attributed.warranted.token late).later later
  | interrupt set first due =>
    refine ⟨⟨fun _ => ?_, attributed.warranted.history⟩, attributed.traced⟩
    exact .due set (Nat.le_max_right _ _)

end Flight

/-- Whenever the caller's token is cancelled in a run, there is a cause. -/
theorem Workflow.run_warranted (workflow : Workflow) (setting : Setting)
    (cancellation : Cancellation) (called : List String) :
    ∃ w outcome, workflow.run setting cancellation called = close w outcome ∧
      w.Warranted setting cancellation := by
  obtain ⟨w, outcome, eq, strides⟩ := workflow.run_strides setting cancellation called
  have start : World.Warranted setting cancellation
      (workflow.world called cancellation.before) := by
    refine World.Warranted.emit ⟨Caused.before, fun before m after split => ?_⟩ _
    cases before <;> cases split
  have apart : Flight.Apart
      ⟨workflow.world called cancellation.before, workflow.root.part.todo [], 0⟩ := by
    have all : Flight.reached ⟨workflow.world called cancellation.before,
        workflow.root.part.todo [], 0⟩ = workflow.root.callIds := zero_add _
    exact ⟨rfl, all ▸ workflow.root.callIds_apart.of_map⟩
  have kept := strides.keeps
    (motive := fun flight => flight.Apart ∧ flight.Timely ∧ flight.Attributed setting cancellation)
    (fun stride ⟨apart, timely, attributed⟩ =>
      ⟨stride.apart apart, stride.timely timely, stride.attributed apart timely attributed⟩)
    ⟨apart, fun _ mem => absurd mem (Multiset.notMem_zero _), start,
      fun _ mem => absurd mem (Multiset.notMem_zero _)⟩
  exact ⟨w, outcome, eq, kept.2.2.warranted⟩

end FlowTree

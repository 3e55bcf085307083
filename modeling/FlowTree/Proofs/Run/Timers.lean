import FlowTree.Proofs.Run.Scripts
import FlowTree.Proofs.Run.Strides

/-! Calls and their timers. A call that falls asleep does so for some time, and not beyond the time
that the host grants it. So no call in flight has a timer that is overdue, and time never goes back. -/

set_option autoImplicit false

namespace FlowTree

namespace Call

variable {setting : Setting} {w w' : World} {call next : Call} {reply : Reply}

def grant (setting : Setting) (w : World) (call : Call) : Option Nat :=
  match call.expiry with
  | some expiry => some expiry.due
  | none => if setting.host.enforcesTimeouts then some (w.clock + call.timeout.millisUp) else none

/-- What a call shows whose script has gone on from some steps. -/
inductive Shows (setting : Setting) (w : World) (call : Call) (steps : Script) : Reply → Prop where
  | answered {answer : Answer} (ends : (steps.goOn call.echo).2 = .answered answer) :
    Shows setting w call steps (.answered answer)
  | asleep {ms : Nat} {next : Call} (same : next.Same call)
    (sleeps : (steps.goOn call.echo).2 = .asleep ms next.rest)
    (wakes : next.wake.due = w.clock + ms)
    (granted : next.expiry.map Timer.due = grant setting w call)
    (early : ∀ due, grant setting w call = some due → w.clock < due) :
    Shows setting w call steps (.asleep next)
  | expired {ms due : Nat} {rest : Script} (sleeps : (steps.goOn call.echo).2 = .asleep ms rest)
    (granted : grant setting w call = some due) (passed : due ≤ w.clock) :
    Shows setting w call steps .expired

theorem await_shows {steps : Script} {ms : Nat} (clock : w'.clock = w.clock)
    (same : next.Same call) (sleeps : (steps.goOn call.echo).2 = .asleep ms next.rest)
    (wakes : next.wake.due = w.clock + ms)
    (granted : next.expiry.map Timer.due = grant setting w call) :
    Shows setting w call steps (await w' next) := by
  unfold await
  cases expiry : next.expiry with
  | none =>
    refine .asleep same sleeps wakes granted fun due grants => ?_
    rw [← granted, expiry] at grants
    cases grants
  | some timer =>
    rw [expiry] at granted
    simp only [clock]
    split
    · next passed => exact .expired sleeps granted.symm passed
    · next early =>
      refine .asleep same sleeps wakes (expiry ▸ granted) fun due grants => ?_
      rw [← granted] at grants
      cases grants
      exact Nat.lt_of_not_le early

theorem advance_shows (setting : Setting) (w : World) (call : Call) (steps : Script) :
    Shows setting w call steps (call.advance setting w steps).2 := by
  unfold advance
  rcases goes : steps.goOn call.echo with ⟨cancels, standing⟩
  have stands : (steps.goOn call.echo).2 = standing := by rw [goes]
  cases standing with
  | answered answer => exact .answered stands
  | asleep ms rest =>
    have shown (mid : World) (clock : mid.clock = w.clock) (serial : Nat) (expiry : Option Timer)
        (granted : expiry.map Timer.due = grant setting w call) :
        Shows setting w call steps
          (await mid { call with wake := ⟨w.clock + ms, serial⟩, rest, expiry }) :=
      await_shows clock ⟨rfl, rfl, rfl, rfl, rfl⟩ stands rfl granted
    simp only
    split
    · next fresh enforces =>
      simp only
      apply shown
      · rfl
      simp [grant, fresh, enforces]
    · next granted =>
      simp only
      apply shown
      · rfl
      unfold grant
      cases expiry : call.expiry with
      | none =>
        have free := Bool.eq_false_iff.2 (granted expiry)
        simp [free]
      | some timer => rfl

theorem advance_token (setting : Setting) (w : World) (call : Call) (steps : Script) :
    (call.advance setting w steps).1.cancelled = (w.cancelled || (steps.goOn call.echo).1) := by
  unfold advance
  rcases steps.goOn call.echo with ⟨cancels, standing⟩
  cases standing with
  | answered answer => rfl
  | asleep ms rest =>
    simp only
    split <;> rfl

theorem Shows.later {steps : Script} (shows' : Shows setting w call steps (.asleep next)) :
    w.clock < next.nextInstant := by
  cases shows' with
  | asleep same sleeps wakes granted early =>
    have stands := Script.goOn_stands call.echo steps
    rw [sleeps] at stands
    cases stands with | asleep positive
    unfold nextInstant
    cases expiry : next.expiry with
    | none =>
      simp only
      omega
    | some timer =>
      rw [expiry] at granted
      have later := early timer.due granted.symm
      simp only
      omega

theorem poll_later (polled : call.poll setting w = (w', .asleep next)) :
    w.clock < next.nextInstant := by
  unfold poll at polled
  split at polled
  · have replied := advance_shows setting w call call.rest
    rw [polled] at replied
    exact replied.later
  · next sleeps =>
    obtain ⟨-, waits⟩ := Prod.mk.inj polled
    obtain rfl := await_asleep waits
    unfold await at waits
    unfold nextInstant
    cases expiry : next.expiry with
    | none =>
      simp only
      omega
    | some timer =>
      simp only [expiry] at waits ⊢
      split at waits
      · cases waits
      · omega

theorem resume_later (resumed : call.resume setting w = (w', .inl next)) :
    w.clock < next.nextInstant := by
  rw [resume] at resumed
  exact poll_later (Prod.ext rfl (takeReply_inl resumed))

def taken (setting : Setting) (place : Position) (invocation : Invocation) (w : World) : World :=
  { sent setting place invocation w with called := invocation.name :: w.called }

/-- The two ways in which a call starts: without a unit, or with the script of its unit. -/
theorem start_cases (setting : Setting) (place : Position) (invocation : Invocation) (w : World) :
    (setting.host.find? invocation.name = none ∧
      start setting place invocation w =
        (fresh setting place invocation w).takeReply (sent setting place invocation w)
          (.answered (.error (.notRegistered invocation.name)))) ∨
    ∃ work mid reply, setting.host.find? invocation.name = some work ∧
      (fresh setting place invocation w).advance setting (taken setting place invocation w)
        (work.script (w.called.count invocation.name) (w.inputs invocation)) = (mid, reply) ∧
      start setting place invocation w =
        (fresh setting place invocation w).takeReply mid reply := by
  unfold start
  cases found : setting.host.find? invocation.name with
  | none => exact .inl ⟨rfl, rfl⟩
  | some work => exact .inr ⟨work, _, _, rfl, rfl, rfl⟩

theorem start_later {place : Position} {invocation : Invocation}
    (started : start setting place invocation w = (w', .inl next)) :
    w.clock < next.nextInstant := by
  rcases start_cases setting place invocation w with ⟨-, eq⟩ | ⟨work, mid, reply, -, goes, eq⟩
  · cases takeReply_inl (eq.symm.trans started)
  · obtain rfl := takeReply_inl (eq.symm.trans started)
    have replied := advance_shows setting (taken setting place invocation w)
      (fresh setting place invocation w)
      (work.script (w.called.count invocation.name) (w.inputs invocation))
    rw [goes] at replied
    exact replied.later

end Call

namespace Flight

variable {setting : Setting} {cancelAt : Option Nat} {phase : Phase} {a b : Flight}

def Timely (flight : Flight) : Prop :=
  ∀ call ∈ flight.calls, flight.world.clock ≤ call.nextInstant

theorem Timely.of_call {w w' : World} {state : Call ⊕ Outcome} {todo left : Multiset Site}
    {calls others : Multiset Call} (timely : Timely ⟨w, todo, calls⟩) (clock : w'.clock = w.clock)
    (others_le : others ≤ calls) (later : ∀ next, state = .inl next → w.clock < next.nextInstant) :
    Timely ⟨w', left, (Progress.ofCall state).calls + others⟩ := by
  intro call mem
  rw [clock]
  rcases Multiset.mem_add.1 mem with mem | mem
  · cases state with
    | inl next =>
      obtain rfl := Multiset.mem_singleton.1 mem
      exact Nat.le_of_lt (later call rfl)
    | inr outcome => exact absurd mem (Multiset.notMem_zero call)
  · exact timely call (Multiset.mem_of_le others_le mem)

theorem Move.timely (move : Move setting phase a b) (timely : Timely a) : Timely b := by
  have clock := move.clock
  cases move with
  | start live started =>
    refine timely.of_call clock le_rfl fun next eq => ?_
    exact Call.start_later (eq ▸ started)
  | resume resumed =>
    refine timely.of_call clock (Multiset.le_cons_self _ _) fun next eq => ?_
    exact Call.resume_later (eq ▸ resumed)
  | unwind unwound =>
    intro call mem
    rw [clock]
    exact timely call (Multiset.mem_cons_of_mem mem)
  | skip | forget => exact timely
  | note notes =>
    intro call mem
    rw [clock]
    exact timely call mem

theorem Stride.timely (stride : Stride setting cancelAt phase a b) (timely : Timely a) :
    Timely b := by
  cases stride with
  | move move => exact move.timely timely
  | pass first early => exact first.least
  | interrupt set first due =>
    intro call mem
    have left := timely call mem
    have right := first.least call mem
    simp only at left right ⊢
    omega

theorem Stride.clock_le (stride : Stride setting cancelAt phase a b) (timely : Timely a) :
    a.world.clock ≤ b.world.clock := by
  cases stride with
  | move move => exact le_of_eq move.clock.symm
  | pass first early =>
    obtain ⟨call, mem, rfl⟩ := first.found
    exact timely call mem
  | interrupt set first due => exact Nat.le_max_left _ _

end Flight

theorem Part.Proceeds.timely {setting : Setting} {part : Part} {place : Position} {w w' : World}
    {progress : Progress} (h : Proceeds setting part place w w' progress)
    (timely : ∀ call ∈ part.calls, w.clock ≤ call.nextInstant) :
    ∀ call ∈ progress.calls, w'.clock ≤ call.nextInstant := by
  have moves := h.leads 0 0
  rw [add_zero, add_zero, add_zero, add_zero] at moves
  exact moves.keeps (motive := Flight.Timely) Flight.Move.timely timely

end FlowTree

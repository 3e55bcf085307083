import FlowTree.Proofs.Run.Timers
import FlowTree.Run.Alone

/-! A call on a host that grants it some time. However its script splits the delay, it gives its own
answer when the delay is over, if that is within the time granted, and times out when the time granted
is over, otherwise. What carries this through is that no timer is met too late. -/

set_option autoImplicit false

namespace FlowTree

/-- How a call of a script ends that is granted some time: after how many milliseconds, and with which
answer. A tie goes to the script. -/
def Script.timed (script : Script) (echo : String) (limit : Duration) : Nat × Answer :=
  if script.delay ≤ limit.millisUp then (script.delay, script.answer echo)
  else (limit.millisUp, .error (.timeout limit))

namespace Script

variable {script : Script} {limit : Duration}

theorem timed_of_le (le : script.delay ≤ limit.millisUp) (echo : String) :
    script.timed echo limit = (script.delay, script.answer echo) := if_pos le

theorem timed_of_lt (lt : limit.millisUp < script.delay) (echo : String) :
    script.timed echo limit = (limit.millisUp, .error (.timeout limit)) :=
  if_neg (Nat.not_le_of_lt lt)

theorem timed_le (script : Script) (echo : String) (limit : Duration) :
    (script.timed echo limit).1 = min script.delay limit.millisUp := by
  rcases Nat.lt_or_ge limit.millisUp script.delay with lt | le
  · rw [timed_of_lt lt, Nat.min_eq_right (Nat.le_of_lt lt)]
  · rw [timed_of_le le, Nat.min_eq_left le]

end Script

namespace Call

def conclusion (call : Call) : Reply → Option Answer
  | .answered answer => some answer
  | .expired => some (.error (.timeout call.timeout))
  | .asleep _ => none

/-- A call that waits in a script which it began at an instant. -/
structure OnWay (start : Nat) (script : Script) (call : Call) : Prop where
  delay : start + script.delay = call.wake.due + call.rest.delay
  answer : script.answer call.echo = call.rest.answer call.echo
  expiry : call.expiry.map Timer.due = some (start + call.timeout.millisUp)

/-- What a call shows that began a script at an instant and keeps its time. -/
inductive Keeps (start : Nat) (script : Script) (now : Nat) (call : Call) : Reply → Prop where
  | ended {reply : Reply} {answer : Answer} (concludes : call.conclusion reply = some answer)
    (due : now = start + (script.timed call.echo call.timeout).1)
    (verdict : (script.timed call.echo call.timeout).2 = answer) : Keeps start script now call reply
  | asleep {next : Call} (same : next.Same call) (onWay : next.OnWay start script)
    (early : now < start + (script.timed call.echo call.timeout).1) :
    Keeps start script now call (.asleep next)

section Keeps

variable {setting : Setting} {w w' : World} {call next : Call} {start : Nat} {script steps : Script}
  {reply : Reply}

theorem OnWay.nextInstant_le (onWay : call.OnWay start script) :
    call.nextInstant ≤ start + (script.timed call.echo call.timeout).1 := by
  obtain ⟨timer, expires, due⟩ := Option.map_eq_some_iff.1 onWay.expiry
  have delay := onWay.delay
  rw [Script.timed_le, nextInstant, expires]
  simp only
  omega

-- What is granted counts from the start, and the steps that are left count from now.
theorem Shows.keeps (shown : Shows setting w call steps reply)
    (delay : start + script.delay = w.clock + steps.delay)
    (answer : script.answer call.echo = steps.answer call.echo)
    (granted : grant setting w call = some (start + call.timeout.millisUp))
    (timely : w.clock ≤ start + call.timeout.millisUp) :
    Keeps start script w.clock call reply := by
  have stands := Script.goOn_stands call.echo steps
  cases shown with
  | answered ends =>
    rw [ends] at stands
    cases stands with | answered idle
    have inTime : script.delay ≤ call.timeout.millisUp := by omega
    have verdict := Script.timed_of_le inTime call.echo
    refine .ended rfl ?_ ?_
    · rw [verdict]
      omega
    · rw [verdict, answer]
  | expired sleeps grants passed =>
    rw [sleeps] at stands
    cases stands with | asleep positive left
    obtain rfl := Option.some.inj (granted.symm.trans grants)
    have late : call.timeout.millisUp < script.delay := by omega
    have verdict := Script.timed_of_lt late call.echo
    refine .ended rfl ?_ ?_
    · rw [verdict]
      exact Nat.le_antisymm timely passed
    · rw [verdict]
  | @asleep ms next same sleeps wakes grants early =>
    rw [sleeps] at stands
    cases stands with | asleep positive left unchanged
    have onWay : next.OnWay start script := by
      constructor
      case delay => omega
      case answer =>
        rw [same.echo, answer]
        exact unchanged
      case expiry => rw [grants, granted, same.timeout]
    have shown : Shows setting w call steps (.asleep next) := .asleep same sleeps wakes grants early
    refine .asleep same onWay ?_
    rw [← same.echo, ← same.timeout]
    exact Nat.lt_of_lt_of_le shown.later onWay.nextInstant_le

theorem advance_keeps (enforces : setting.host.enforcesTimeouts = true) (fresh : call.expiry = none)
    (went : call.advance setting w script = (w', reply)) :
    Keeps w.clock script w'.clock call reply := by
  have shown := advance_shows setting w call script
  have same := (advance_stirs setting call w script).clock
  rw [went] at shown same
  rw [show w'.clock = w.clock from same]
  refine shown.keeps rfl rfl ?_ (Nat.le_add_right _ _)
  rw [grant, fresh]
  exact if_pos enforces

theorem poll_keeps (polled : call.poll setting w = (w', reply)) (onWay : call.OnWay start script)
    (timely : w.clock ≤ call.nextInstant) : Keeps start script w'.clock call reply := by
  obtain ⟨timer, expires, due⟩ := Option.map_eq_some_iff.1 onWay.expiry
  have delay := onWay.delay
  have inTime : w.clock ≤ call.wake.due ∧ w.clock ≤ timer.due := by
    rw [nextInstant, expires] at timely
    exact Nat.le_min.1 timely
  have same := (poll_stirs setting call w).clock
  rw [polled] at same
  rw [show w'.clock = w.clock from same]
  unfold poll at polled
  split at polled
  · next awake =>
    have shown := advance_shows setting w call call.rest
    rw [polled] at shown
    refine shown.keeps ?_ onWay.answer ?_ ?_
    · omega
    · rw [grant, expires]
      exact congrArg some due
    · omega
  · next sleeps =>
    obtain ⟨-, rfl⟩ := Prod.mk.inj polled
    unfold await
    rw [expires]
    simp only
    split
    · next passed =>
      have late : call.timeout.millisUp < script.delay := by omega
      have verdict := Script.timed_of_lt late call.echo
      refine .ended rfl ?_ ?_
      · rw [verdict]
        omega
      · rw [verdict]
    · next left =>
      refine .asleep (.refl call) onWay ?_
      rw [Script.timed_le]
      omega

end Keeps

theorem settle_timed (setting : Setting) {w : World} {call : Call} {start : Nat} {script : Script}
    (onWay : call.OnWay start script) :
    (settle setting w call).1.clock = start + (script.timed call.echo call.timeout).1 ∧
      (settle setting w call).2 = (script.timed call.echo call.timeout).2 := by
  -- The clock stands at the call's next timer whenever the call goes on.
  fun_induction settle setting w call with
  | case1 w call mid answer replied =>
    cases poll_keeps replied onWay (Nat.le_refl _) with
    | ended concludes due verdict =>
      cases concludes
      exact ⟨due, verdict.symm⟩
  | case2 w call mid replied =>
    cases poll_keeps replied onWay (Nat.le_refl _) with
    | ended concludes due verdict =>
      cases concludes
      exact ⟨due, verdict.symm⟩
  | case3 w call mid next replied shorter ih =>
    cases poll_keeps replied onWay (Nat.le_refl _) with
    | ended concludes => cases concludes
    | asleep same further early =>
      rw [← same.echo, ← same.timeout]
      exact ih further

theorem alone_timed (name : String) (inputs : List String) (limit : Duration) (script : Script)
    (clock : Nat) :
    alone name inputs limit script clock =
      (clock + (script.timed (echoText name inputs) limit).1,
        (script.timed (echoText name inputs) limit).2) := by
  unfold alone
  simp only
  split
  · next w answer went =>
    cases advance_keeps rfl rfl went with
    | ended concludes due verdict =>
      cases concludes
      rw [due, ← verdict]
  · next w went =>
    cases advance_keeps rfl rfl went with
    | ended concludes due verdict =>
      cases concludes
      rw [due, verdict]
  · next w next went =>
    cases advance_keeps rfl rfl went with
    | ended concludes => cases concludes
    | asleep same onWay early =>
      obtain ⟨due, verdict⟩ := settle_timed { host := ⟨[], true⟩, timeout := limit } (w := w) onWay
      rw [same.echo, same.timeout] at due verdict
      exact Prod.ext due verdict

end Call

end FlowTree

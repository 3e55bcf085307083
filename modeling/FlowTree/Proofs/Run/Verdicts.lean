import FlowTree.Proofs.Run.Entries
import FlowTree.Proofs.Run.Scopes

/-! How a call ends whose scope is cancelled. What it ends with depends only on what is there at that
instant: the answer of its script, if the script has come to one, and else the end of the time that the
host grants. -/

set_option autoImplicit false

namespace FlowTree

namespace Call

def Answers (call : Call) (clock : Nat) (answer : Answer) : Prop :=
  call.wake.due ≤ clock ∧ call.rest.delay = 0 ∧ call.rest.answer call.echo = answer

/-- How a call ends at an instant at which its scope is cancelled: with its own failure or its timeout if
that is there, and as cancelled otherwise. -/
inductive EndsLate (call : Call) (clock : Nat) : Happening → Failure → Prop where
  | failed {error : CallError} (answers : call.Answers clock (.error error)) :
    EndsLate call clock (.failed call.place call.name error) (.invocation call.name error)
  | dropped {output : String} (answers : call.Answers clock (.ok output)) :
    EndsLate call clock (.cancelled call.place call.name false) .cancelled
  | timedOut {timer : Timer} (silent : ∀ answer, ¬ call.Answers clock answer)
    (expires : call.expiry = some timer) (passed : timer.due ≤ clock) :
    EndsLate call clock (.failed call.place call.name (.timeout call.timeout))
      (.invocation call.name (.timeout call.timeout))
  | abandoned (silent : ∀ answer, ¬ call.Answers clock answer)
    (granted : ∀ timer, call.expiry = some timer → clock < timer.due) :
    EndsLate call clock (.cancelled call.place call.name true) .cancelled

/-- The call for an invocation as it goes out, with its script and the time that the host grants it. -/
def outgoing (setting : Setting) (place : Position) (invocation : Invocation) (w : World)
    (script : Script) : Call :=
  { fresh setting place invocation w with
    wake := ⟨w.clock, w.timers⟩
    rest := script
    expiry := if setting.host.enforcesTimeouts then
      some ⟨w.clock + (invocation.timeout.getD setting.timeout).millisUp, w.timers⟩ else none }

section EndsLate

variable {setting : Setting} {call sent : Call} {w mid w' : World} {reply : Reply} {failure : Failure}

theorem Armed.granted (armed : call.Armed setting) : call.expiry.map Timer.due = grant setting w call := by
  unfold Armed at armed
  unfold grant
  cases expires : call.expiry with
  | none =>
    rw [expires] at armed
    rw [← armed]
    rfl
  | some timer => rfl

/-- What a call shows that has gone on from its steps tells how it ends. -/
theorem Shows.endsLate {steps : Script} (shown : Shows setting w call steps reply)
    (same : sent.Same call) (awake : sent.wake.due ≤ w.clock) (begins : sent.rest = steps)
    (granted : sent.expiry.map Timer.due = grant setting w call)
    (dropped : call.dropReply mid reply = (w', failure)) :
    ∃ told entry, mid.Tells told ∧ w' = told.emit entry ∧
      sent.EndsLate w.clock entry failure := by
  have stands := Script.goOn_stands call.echo steps
  have silent (active : 0 < steps.delay) : ∀ answer, ¬ sent.Answers w.clock answer := by
    rintro answer ⟨-, idle, -⟩
    rw [begins] at idle
    omega
  cases shown with
  | answered ends =>
    rw [ends] at stands
    cases stands with | answered idle
    have answers : sent.Answers w.clock (steps.answer call.echo) :=
      ⟨awake, begins ▸ idle, by rw [begins, same.echo]⟩
    cases told : steps.answer call.echo with
    | error error =>
      rw [told] at dropped answers
      cases dropped
      refine ⟨_, _, .intro _ _, rfl, ?_⟩
      rw [← same.place, ← same.name]
      exact .failed answers
    | ok output =>
      rw [told] at dropped answers
      cases dropped
      refine ⟨_, _, .intro _ _, rfl, ?_⟩
      rw [← same.place, ← same.name]
      exact .dropped answers
  | asleep _ sleeps _ _ early =>
    rw [sleeps] at stands
    cases stands with | asleep positive left
    cases dropped
    refine ⟨_, _, .intro _ _, rfl, ?_⟩
    rw [← same.place, ← same.name]
    refine .abandoned (silent (by omega)) fun timer expires => early _ ?_
    rw [← granted, expires]
    rfl
  | expired sleeps grants passed =>
    rw [sleeps] at stands
    cases stands with | asleep positive left
    obtain ⟨timer, expires, rfl⟩ := Option.map_eq_some_iff.1 (granted.trans grants)
    cases dropped
    refine ⟨_, _, .intro _ _, rfl, ?_⟩
    rw [← same.place, ← same.name, ← same.timeout]
    exact .timedOut (silent (by omega)) expires passed

theorem unwind_endsLate (armed : call.Armed setting) (unwound : call.unwind setting w = (w', failure)) :
    ∃ entry, w'.trace = w.trace ++ [entry] ∧ call.EndsLate w.clock entry failure := by
  have stirs := poll_stirs setting call w
  rw [unwind] at unwound
  rcases polled : call.poll setting w with ⟨mid, reply⟩
  rw [polled] at unwound stirs
  have told {last : World} (tells : mid.Tells last) (entry : Happening) :
      (last.emit entry).trace = w.trace ++ [entry] := by
    rw [World.trace_emit, World.trace, (stirs.trans (.of_tells tells)).moments, ← World.trace]
  unfold poll at polled
  split at polled
  · next awake =>
    have shown := advance_shows setting w call call.rest
    rw [polled] at shown
    obtain ⟨last, entry, tells, rfl, ends⟩ :=
      shown.endsLate (.refl call) awake rfl armed.granted unwound
    exact ⟨entry, told tells entry, ends⟩
  · next sleeps =>
    have silent : ∀ answer, ¬ call.Answers w.clock answer := fun answer answers => sleeps answers.1
    obtain ⟨rfl, rfl⟩ := Prod.mk.inj polled
    unfold await at unwound
    cases expires : call.expiry with
    | none =>
      rw [expires] at unwound
      cases unwound
      refine ⟨_, told (.intro _ _) _, .abandoned silent fun timer set => ?_⟩
      cases expires.symm.trans set
    | some timer =>
      simp only [expires] at unwound
      split at unwound
      · next passed =>
        cases unwound
        exact ⟨_, told (.intro _ _) _, .timedOut silent expires passed⟩
      · next left =>
        cases unwound
        refine ⟨_, told (.intro _ _) _, .abandoned silent fun other set => ?_⟩
        cases expires.symm.trans set
        exact Nat.lt_of_not_le left

theorem outgoing_granted (setting : Setting) (place : Position) (invocation : Invocation) (w : World)
    (script : Script) :
    (outgoing setting place invocation w script).expiry.map Timer.due =
      grant setting (taken setting place invocation w) (fresh setting place invocation w) := by
  rw [outgoing, grant]
  cases setting.host.enforcesTimeouts <;> rfl

/-- A call whose script cancels the caller's token as it starts ends at once. -/
theorem start_endsLate {place : Position} {invocation : Invocation} {state : Call ⊕ Outcome}
    (started : start setting place invocation w = (w', state)) (live : w.cancelled = false)
    (token : w'.cancelled = true) :
    ∃ work entry failure, setting.host.find? invocation.name = some work ∧
      state = .inr (.error failure) ∧ w'.store = w.store ∧
      w'.trace = w.trace ++ [.started place invocation.name (w.inputs invocation)
        (invocation.timeout.getD setting.timeout), entry] ∧
      (outgoing setting place invocation w
        (work.script (w.called.count invocation.name) (w.inputs invocation))).EndsLate w.clock
          entry failure := by
  rcases start_cases setting place invocation w with ⟨-, eq⟩ | ⟨work, mid, reply, found, goes, eq⟩
  · have takes := takeReply_takes (eq.symm.trans started)
    cases live.symm.trans (takes.token.symm.trans token)
  · have takes := takeReply_takes (eq.symm.trans started)
    have shown := advance_shows setting (taken setting place invocation w)
      (fresh setting place invocation w)
      (work.script (w.called.count invocation.name) (w.inputs invocation))
    have stirs := advance_stirs setting (fresh setting place invocation w)
      (taken setting place invocation w)
      (work.script (w.called.count invocation.name) (w.inputs invocation))
    rw [goes] at shown stirs
    rw [takes.token.symm.trans token] at takes
    obtain ⟨failure, dropped, rfl⟩ := takes.drops
    have same : (outgoing setting place invocation w
        (work.script (w.called.count invocation.name) (w.inputs invocation))).Same
          (fresh setting place invocation w) := ⟨rfl, rfl, rfl, rfl, rfl⟩
    obtain ⟨last, entry, tells, rfl, ends⟩ :=
      shown.endsLate same (Nat.le_refl _) rfl (outgoing_granted setting place invocation w _) dropped
    cases stirs.trans (.of_tells tells)
    refine ⟨work, entry, failure, found, rfl, rfl, ?_, ends⟩
    rw [World.trace_emit]
    refine (congrArg (· ++ [entry]) (trace_sent setting place invocation w)).trans ?_
    rw [List.append_assoc]
    rfl

end EndsLate

end Call

end FlowTree

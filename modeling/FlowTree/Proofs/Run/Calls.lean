import FlowTree.Run.Call

/-! What the operations on a call change. Until a call ends or falls asleep it can only set timers,
cancel the caller's token and tell the log and the observer something; it ends with one entry of the
trace, and writes only when it completes. -/

set_option autoImplicit false

namespace FlowTree

inductive World.Tells (w : World) : World → Prop where
  | intro (entries : List LogEntry) (notices : List (String → Event)) :
    Tells w { w with entries, notices }

/-- Timers are set, the caller's token is cancelled or left as it is, and the log and the observer are
told something. -/
inductive World.Stirs (w : World) : World → Prop where
  | intro (timers : Nat) (cancels : Bool) (entries : List LogEntry) (notices : List (String → Event)) :
    Stirs w { w with timers, cancelled := w.cancelled || cancels, entries, notices }

namespace World.Stirs

variable {a b c : World}

theorem of_tells (tells : a.Tells b) : a.Stirs b := by
  cases tells with | intro entries notices
  have stirs := intro (w := a) a.timers false entries notices
  rwa [Bool.or_false] at stirs

theorem trans (first : a.Stirs b) (next : b.Stirs c) : a.Stirs c := by
  cases first
  cases next
  rw [Bool.or_assoc]
  exact .intro _ _ _ _

end World.Stirs

namespace Call

variable {setting : Setting} {w w' : World} {call next : Call}

theorem sent_tells (setting : Setting) (place : Position) (invocation : Invocation) (w : World) :
    ∃ mid, w.Tells mid ∧ sent setting place invocation w = mid.emit (.started place invocation.name
      (w.inputs invocation) (invocation.timeout.getD setting.timeout)) :=
  ⟨_, .intro _ _, rfl⟩

structure Same (a b : Call) : Prop where
  place : a.place = b.place
  name : a.name = b.name
  result : a.result = b.result
  timeout : a.timeout = b.timeout
  echo : a.echo = b.echo

theorem Same.refl (call : Call) : call.Same call := ⟨rfl, rfl, rfl, rfl, rfl⟩

theorem await_same (h : await w call = .asleep next) : next.Same call := by
  unfold await at h
  split at h
  · split at h
    · contradiction
    · cases h
      exact .refl _
  · cases h
    exact .refl _

theorem advance_stirs (setting : Setting) (call : Call) (w : World) (steps : Script) :
    w.Stirs (call.advance setting w steps).1 := by
  unfold advance
  split
  next cancels standing _ =>
    cases standing with
    | answered answer => exact .intro w.timers cancels _ _
    | asleep ms rest =>
      simp only
      split
      · exact .intro (w.timers + 1 + 1) cancels _ _
      · exact .intro (w.timers + 1) cancels _ _

theorem advance_same {steps : Script} (h : call.advance setting w steps = (w', .asleep next)) :
    next.Same call := by
  unfold advance at h
  split at h
  next cancels standing _ =>
    cases standing with
    | answered answer => simp at h
    | asleep ms rest =>
      simp only at h
      split at h <;>
      · obtain ⟨-, asleep⟩ := Prod.mk.inj h
        have same := await_same asleep
        exact ⟨same.place, same.name, same.result, same.timeout, same.echo⟩

theorem poll_stirs (setting : Setting) (call : Call) (w : World) : w.Stirs (call.poll setting w).1 := by
  unfold poll
  split
  · exact advance_stirs setting call w call.rest
  · exact .of_tells (.intro _ _)

theorem poll_same (h : call.poll setting w = (w', .asleep next)) : next.Same call := by
  unfold poll at h
  split at h
  · exact advance_same h
  · exact await_same (Prod.ext_iff.1 h).2

inductive FailsBy (call : Call) : Happening → Failure → Prop where
  | failed (error : CallError) :
    FailsBy call (.failed call.place call.name error) (.invocation call.name error)
  | cancelled (abandoned : Bool) :
    FailsBy call (.cancelled call.place call.name abandoned) .cancelled

theorem dropReply_fails (w : World) (call : Call) (reply : Reply) :
    ∃ mid entry failure, w.Tells mid ∧ call.dropReply w reply = (mid.emit entry, failure) ∧
      call.FailsBy entry failure := by
  cases reply with
  | answered answer =>
    cases answer with
    | error error => exact ⟨_, _, _, .intro _ _, rfl, .failed error⟩
    | ok output => exact ⟨_, _, _, .intro _ _, rfl, .cancelled false⟩
  | expired => exact ⟨_, _, _, .intro _ _, rfl, .failed (.timeout call.timeout)⟩
  | asleep next => exact ⟨_, _, _, .intro _ _, rfl, .cancelled true⟩

theorem unwind_fails {failure : Failure} (h : call.unwind setting w = (w', failure)) :
    ∃ mid entry, w.Stirs mid ∧ w' = mid.emit entry ∧ call.FailsBy entry failure := by
  unfold unwind at h
  have stirs := poll_stirs setting call w
  rcases polled : call.poll setting w with ⟨mid, reply⟩
  rw [polled] at h stirs
  obtain ⟨told, entry, dropped, tells, eq, fails⟩ := dropReply_fails mid call reply
  obtain ⟨rfl, rfl⟩ := Prod.mk.inj (eq.symm.trans h)
  exact ⟨told, entry, stirs.trans (.of_tells tells), rfl, fails⟩

/-- What becomes of a call in a live scope when it falls asleep or ends. -/
inductive Lands (call : Call) (w : World) : World → Call ⊕ Outcome → Prop where
  | asleep {next : Call} (same : next.Same call) (live : w.cancelled = false) :
    Lands call w w (.inl next)
  | completed (output : String) (live : w.cancelled = false) :
    Lands call w (call.complete w output) (.inr (.ok ()))
  | failed {entry : Happening} {failure : Failure} (fails : call.FailsBy entry failure) :
    Lands call w (w.emit entry) (.inr (.error failure))

theorem takeReply_lands {reply : Reply} {state : Call ⊕ Outcome}
    (same : ∀ next, reply = .asleep next → next.Same call)
    (h : call.takeReply w reply = (w', state)) : ∃ mid, w.Tells mid ∧ call.Lands mid w' state := by
  unfold takeReply at h
  split at h
  · -- The script has cancelled the caller's token itself, so its output is dropped.
    obtain ⟨mid, entry, failure, tells, eq, fails⟩ := dropReply_fails w call reply
    rw [eq] at h
    cases h
    exact ⟨mid, tells, .failed fails⟩
  · next live =>
    rw [Bool.not_eq_true] at live
    split at h
    · cases h
      exact ⟨w, .intro _ _, .completed _ live⟩
    · cases h
      exact ⟨_, .intro _ _, .failed (.failed _)⟩
    · cases h
      exact ⟨_, .intro _ _, .failed (.failed _)⟩
    · cases h
      exact ⟨w, .intro _ _, .asleep (same _ rfl) live⟩

theorem resume_lands {state : Call ⊕ Outcome} (h : call.resume setting w = (w', state)) :
    ∃ mid, w.Stirs mid ∧ call.Lands mid w' state := by
  unfold resume at h
  have stirs := poll_stirs setting call w
  rcases polled : call.poll setting w with ⟨mid, reply⟩
  rw [polled] at h stirs
  obtain ⟨told, tells, lands⟩ := takeReply_lands (fun next asleep => poll_same (asleep ▸ polled)) h
  exact ⟨told, stirs.trans (.of_tells tells), lands⟩

theorem start_lands {place : Position} {invocation : Invocation} {state : Call ⊕ Outcome}
    (h : start setting place invocation w = (w', state)) :
    ∃ (called : List String) (mid : World),
      World.Stirs { sent setting place invocation w with called } mid ∧
        (fresh setting place invocation w).Lands mid w' state := by
  unfold start at h
  simp only at h
  split at h
  · -- A name that the host does not know is answered without a script.
    have answered : ∀ next, Reply.answered (.error (.notRegistered invocation.name)) = .asleep next →
        next.Same (fresh setting place invocation w) := by
      intro next asleep
      cases asleep
    obtain ⟨told, tells, lands⟩ := takeReply_lands answered h
    exact ⟨w.called, told, .of_tells tells, lands⟩
  · next work _ =>
    have stirs := advance_stirs setting (fresh setting place invocation w)
      { sent setting place invocation w with called := invocation.name :: w.called }
      (work.script (w.called.count invocation.name) (w.inputs invocation))
    obtain ⟨told, tells, lands⟩ :=
      takeReply_lands (fun _ asleep => advance_same (Prod.ext rfl asleep)) h
    exact ⟨_, told, stirs.trans (.of_tells tells), lands⟩

end Call

end FlowTree

import FlowTree.Proofs.Run.Causes

/-! A cancellation neither leaks nor is invented. A block that fails cancels its own scope, so all
branches below it may end as cancelled, at any depth; it reports none of that. A statement is reported
as cancelled only if the caller's token is cancelled. -/

set_option autoImplicit false

namespace FlowTree

namespace Failure

inductive Within : Failure → Failure → Prop where
  | self (failure : Failure) : Within failure failure
  | part {inner part : Failure} {failures : List Failure} (mem : part ∈ failures)
    (within : Within inner part) : Within inner (.parallel failures)

/-- Nothing in the failure is a cancellation, and failures are joined only in the mode that reports
all of them, and only if there are several. -/
def Genuine (mode : FailureMode) (failure : Failure) : Prop :=
  ∀ inner, Within inner failure → inner ≠ .cancelled ∧
    ∀ failures, inner = .parallel failures → mode = .aggregate ∧ 2 ≤ failures.length

def Proper (mode : FailureMode) (failure : Failure) : Prop :=
  failure = .cancelled ∨ failure.Genuine mode

variable {mode : FailureMode}

theorem genuine_invocation (mode : FailureMode) (name : String) (source : CallError) :
    (invocation name source).Genuine mode := by
  intro inner within
  cases within
  exact ⟨nofun, nofun⟩

theorem genuine_parallel {failures : List Failure} (several : 2 ≤ failures.length)
    (each : ∀ f ∈ failures, f.Genuine .aggregate) : (parallel failures).Genuine .aggregate := by
  intro inner within
  cases within with
  | self =>
    refine ⟨nofun, ?_⟩
    rintro _ ⟨⟩
    exact ⟨rfl, several⟩
  | part mem within => exact each _ mem inner within

theorem Proper.genuine {failure : Failure} (proper : failure.Proper mode)
    (active : failure ≠ .cancelled) : failure.Genuine mode := proper.resolve_left active

theorem isCancelled_iff (failure : Failure) : failure.isCancelled = true ↔ failure = .cancelled := by
  cases failure <;> simp [isCancelled]

theorem join_proper {failures : List Failure} (each : ∀ f ∈ failures, f.Proper .aggregate) :
    (FailureMode.join failures).Proper .aggregate := by
  have genuine : ∀ f ∈ failures.filter (!·.isCancelled), f.Genuine .aggregate := by
    intro f mem
    obtain ⟨mem, active⟩ := List.mem_filter.1 mem
    refine (each f mem).genuine fun cancelled => ?_
    rw [(isCancelled_iff f).2 cancelled] at active
    cases active
  unfold FailureMode.join
  split
  · exact .inl rfl
  · next only one => exact .inr (genuine only (one ▸ List.mem_singleton_self only))
  · next none single =>
    refine .inr (genuine_parallel ?_ genuine)
    match several : failures.filter (!·.isCancelled) with
    | [] => exact absurd several none
    | [only] => exact absurd several (single only)
    | _ :: _ :: _ => simp [several]

theorem settle_proper {failures : List Failure} {failure : Failure}
    (each : ∀ f ∈ failures, f.Proper mode) (settled : mode.settle failures = .error failure) :
    failure.Proper mode := by
  cases failures with
  | nil => cases settled
  | cons first later =>
    cases mode with
    | firstObserved =>
      cases settled
      exact each _ List.mem_cons_self
    | aggregate =>
      cases settled
      exact join_proper each

/-- A block ends as cancelled only if its first failure was a cancellation. -/
theorem settle_cancelled {first : Failure} {later : List Failure}
    (settled : mode.settle (first :: later) = .error .cancelled) : first = .cancelled := by
  cases mode with
  | firstObserved =>
    cases settled
    rfl
  | aggregate =>
    have joined : FailureMode.join (first :: later) = .cancelled := Except.error.inj settled
    unfold FailureMode.join at joined
    split at joined
    · next none =>
      have dropped := List.filter_eq_nil_iff.1 none first List.mem_cons_self
      rw [Bool.not_eq_true, Bool.not_eq_false'] at dropped
      exact (isCancelled_iff first).1 dropped
    · next only one =>
      have mem : only ∈ (first :: later).filter (!·.isCancelled) :=
        one ▸ List.mem_singleton_self only
      rw [joined] at mem
      cases (List.mem_filter.1 mem).2
    · cases joined

end Failure

namespace Call

open FlowTree.Failure (Proper)

variable {setting : Setting} {call : Call} {w w' : World} {reply : Reply}

theorem FailsBy.proper {entry : Happening} {failure : Failure} (fails : call.FailsBy entry failure)
    (mode : FailureMode) : failure.Proper mode := by
  cases fails with
  | failed error => exact .inr (Failure.genuine_invocation mode call.name error)
  | cancelled abandoned => exact .inl rfl

theorem takeReply_cancelled (taken : call.takeReply w reply = (w', .inr (.error .cancelled))) :
    w'.cancelled = true := by
  unfold takeReply at taken
  split at taken
  · next late =>
    obtain ⟨mid, entry, failure, tells, eq, -⟩ := dropReply_fails w call reply
    rw [eq] at taken
    cases taken
    cases tells
    exact late
  · split at taken <;> cases taken

end Call

/-- What a turn fails with is proper, and a cancellation only if the caller's token is cancelled. -/
def Progress.Honest (mode : FailureMode) (w : World) (progress : Progress) : Prop :=
  ∀ failure, progress = .ended (.error failure) →
    failure.Proper mode ∧ (failure = .cancelled → w.cancelled = true)

namespace Call

variable {setting : Setting} {call : Call} {w mid w' : World} {reply : Reply}
  {state : Call ⊕ Outcome}

theorem takeReply_honest (lands : call.Lands mid w' state)
    (taken : call.takeReply w reply = (w', state)) (mode : FailureMode) :
    (Progress.ofCall state).Honest mode w' := by
  rintro failure eq
  cases lands with
  | asleep | completed => cases eq
  | failed fails =>
    cases eq
    refine ⟨fails.proper mode, ?_⟩
    rintro rfl
    exact takeReply_cancelled taken

theorem start_honest {place : Position} {invocation : Invocation}
    (started : start setting place invocation w = (w', state)) (mode : FailureMode) :
    (Progress.ofCall state).Honest mode w' := by
  obtain ⟨_, _, -, lands⟩ := start_lands started
  rcases start_cases setting place invocation w with ⟨-, eq⟩ | ⟨work, mid, reply, -, -, eq⟩
  · exact takeReply_honest lands (eq.symm.trans started) mode
  · exact takeReply_honest lands (eq.symm.trans started) mode

theorem resume_honest (resumed : call.resume setting w = (w', state)) (mode : FailureMode) :
    (Progress.ofCall state).Honest mode w' := by
  obtain ⟨_, -, lands⟩ := resume_lands resumed
  exact takeReply_honest lands resumed mode

end Call

namespace Part

variable {setting : Setting} {part : Part} {place : Position} {w w' : World}

/-- A part whose scope is cancelled ends with a proper failure, if its block has observed no other. -/
theorem Unwinds.proper {outcome : Outcome} (h : Unwinds setting part place w w' outcome)
    (each : ∀ f ∈ part.observed, f.Proper setting.mode) {failure : Failure}
    (fails : outcome = .error failure) : failure.Proper setting.mode := by
  induction h generalizing failure with
  | ended | finished => cases fails
  | skip =>
    cases fails
    exact .inl rfl
  | call unwound =>
    obtain ⟨_, _, -, -, failed⟩ := Call.unwind_fails unwound
    cases fails
    exact failed.proper setting.mode
  | next _ _ _ _ later => exact later nofun fails
  | stop fresh _ ih => exact ih (fresh ▸ nofun) fails
  | drained all => exact Failure.settle_proper each fails
  | branchOk _ _ _ _ later => exact later each fails
  | @branchFails _ _ _ failures _ _ _ _ _ failed _ fresh _ _ ih later =>
    refine later (fun f mem => ?_) fails
    rcases List.mem_append.1 mem with mem | mem
    · exact each f mem
    · cases List.mem_singleton.1 mem
      exact ih (fresh ▸ nofun) rfl

-- A block whose first failure is a cancellation was cancelled from above: the branch had been handed
-- a cancelled scope, and at that time the block had not failed yet.
theorem Proceeds.honest {progress : Progress} (h : Proceeds setting part place w w' progress) :
    progress.Honest setting.mode w' := by
  induction h with
  | ended | finished | wait => nofun
  | skip late =>
    rintro failure ⟨⟩
    exact ⟨.inl rfl, fun _ => late⟩
  | start live started => exact Call.start_honest started setting.mode
  | resume resumed => exact Call.resume_honest resumed setting.mode
  | next _ _ _ later => exact later
  | stop _ ih => exact ih
  | rest busy =>
    intro failure eq
    unfold Progress.ofBranches at eq
    split at eq <;> cases eq
  | branchWaits _ _ _ later => exact later
  | branchOk _ _ _ later => exact later
  | @branchFails before after branch place w mid w' outcome first remaining fails others ih =>
    obtain ⟨proper, late⟩ := ih first rfl
    rintro failure ⟨⟩
    constructor
    · refine others.proper (fun f mem => ?_) rfl
      cases List.mem_singleton.1 mem
      exact proper
    · rintro rfl
      obtain ⟨later, settled⟩ := others.settles _ _ rfl
      have cancelled := late (Failure.settle_cancelled settled.symm)
      refine others.late ?_
      rcases observe_notes setting.mode place [] remaining first mid with same | notes
      · exact same ▸ cancelled
      · exact notes.cancelled.trans cancelled

theorem Finishes.honest {outcome : Outcome} (h : Finishes setting part w w' outcome) :
    (Progress.ended outcome).Honest setting.mode w' := by
  induction h with
  | ended turn => exact turn.honest
  | waits _ _ ih => exact ih
  | cancelled busy unwound =>
    rintro failure ⟨⟩
    refine ⟨unwound.proper ?_ rfl, fun _ => unwound.late rfl⟩
    cases busy <;> nofun

end Part

structure Run.Candid (run : Run) (setting : Setting) (cancellation : Cancellation) : Prop where
  /-- A run that ends as cancelled does so under a cancelled token. -/
  told : run.outcome = .error .cancelled →
    ∃ before last, run.moments = before ++ [last] ∧ last.cancelled = true
  genuine : ∀ failure, run.outcome = .error failure → failure ≠ .cancelled →
    failure.Genuine setting.mode
  /-- Whenever the token is cancelled, the caller or a unit has cancelled it. -/
  caused : ∀ before m after, run.moments = before ++ m :: after → m.cancelled = true →
    Caused setting cancellation before m.clock

/-- A run is cancelled only by its caller or by a unit, and tells of a cancellation only then. -/
theorem Workflow.run_candid (workflow : Workflow) (setting : Setting) (cancellation : Cancellation)
    (called : List String) :
    (workflow.run setting cancellation called).Candid setting cancellation := by
  obtain ⟨w, outcome, eq, finishes⟩ := workflow.run_finishes setting cancellation called
  obtain ⟨w', outcome', eq', warranted⟩ := workflow.run_warranted setting cancellation called
  have honest := finishes.honest
  constructor
  case told =>
    rw [eq]
    rintro ⟨⟩
    exact ⟨w.moments, _, w.moments_emit _, (honest .cancelled rfl).2 rfl⟩
  case genuine =>
    rw [eq]
    rintro failure ⟨⟩ active
    exact (honest failure rfl).1.genuine active
  case caused =>
    rw [eq']
    exact (warranted.emit (closing outcome')).history

end FlowTree

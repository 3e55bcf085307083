import FlowTree.Proofs.Run.Faults
import FlowTree.Proofs.Run.Records

/-! A run that reports the first failure only fails with the failure that happened first, however deep
in the tree. Each block chooses among the failures that it observes itself; between the failure of a
call and the end of the blocks around it no other call fails first. -/

set_option autoImplicit false

namespace FlowTree

namespace Part

variable {setting : Setting} {part : Part} {place : Position} {w w' : World}

theorem Unwinds.faults_prefix {outcome : Outcome} (h : Unwinds setting part place w w' outcome) :
    w.trace.faults <+: w'.trace.faults := by
  induction h with
  | ended | finished | drained => exact List.prefix_rfl
  | @skip invocation place w =>
    have same : (w.emit (.skipped place invocation.name)).trace.faults = w.trace.faults :=
      World.faults_emit_of_none w rfl
    exact ⟨[], (List.append_nil _).trans same.symm⟩
  | call unwound =>
    rw [Call.unwind_faults unwound]
    exact List.prefix_append _ _
  | next _ _ _ ih later => exact ih.trans later
  | stop _ _ ih => exact ih
  | branchOk _ _ _ ih later => exact ih.trans later
  | branchFails _ _ _ ih later =>
    rw [World.faults_observe] at later
    exact ih.trans later

theorem Unwinds.faults_of_idle {outcome : Outcome} (h : Unwinds setting part place w w' outcome)
    (idle : part.calls = 0) : w'.trace.faults = w.trace.faults := by
  induction h with
  | ended | finished | drained => rfl
  | skip => exact World.faults_emit_of_none _ rfl
  | call unwound => exact absurd idle (Multiset.singleton_ne_zero _)
  | next _ _ _ ih later =>
    rw [calls_sequence] at idle
    rw [later (calls_rest _ _), ih idle]
  | stop _ _ ih =>
    rw [calls_sequence] at idle
    exact ih idle
  | @branchOk _ _ _ failures _ _ _ _ _ _ _ _ ih later =>
    rw [calls_block _ _ _ _ failures, add_eq_zero] at idle
    rw [later idle.2, ih idle.1]
  | @branchFails _ _ _ failures _ _ _ _ _ failure _ _ _ _ ih later =>
    rw [calls_block _ _ _ _ (failures ++ [failure]), add_eq_zero] at idle
    rw [later idle.2, World.faults_observe, ih idle.1]

theorem Unwinds.fails_with {branches : List Part} {failure : Failure} {outcome : Outcome}
    (h : Unwinds setting (.block branches [failure]) place w w' outcome)
    (mode : setting.mode = .firstObserved) : outcome = .error failure := by
  obtain ⟨later, rfl⟩ := h.settles _ _ rfl
  rw [mode]
  rfl

/-- A part that waits fails with the first failure after its scope is cancelled. -/
theorem Unwinds.first_of_busy {outcome : Outcome} (h : Unwinds setting part place w w' outcome)
    (mode : setting.mode = .firstObserved) (busy : Busy part) :
    ∃ failure, outcome = .error failure ∧ w.trace.faults ++ [failure] <+: w'.trace.faults := by
  induction h with
  | ended | skip | finished => cases busy
  | call unwound =>
    have adds := Call.unwind_faults unwound
    exact ⟨_, rfl, [], (List.append_nil _).trans adds.symm⟩
  | next _ _ _ ih _ =>
    cases busy with
    | sequence busy =>
      obtain ⟨failure, fails, -⟩ := ih busy
      cases fails
  | stop _ _ ih =>
    cases busy with
    | sequence busy => exact ih busy
  | drained all =>
    cases busy with
    | block _ live =>
      obtain ⟨b, mem, active⟩ := live
      exact absurd (all b mem) active
  | @branchOk before after branch failures place w mid w' outcome fresh first others ih later =>
    cases busy with
    | block busy live =>
      by_cases active : branch = .ended
      · -- The branch had ended already, so nothing has happened.
        subst active
        cases first
        exact later (.block busy live)
      · obtain ⟨failure, fails, -⟩ := ih (busy branch (by simp) active)
        cases fails
  | @branchFails before after branch failures place w mid w' outcome failure remaining fresh first
      others ih later =>
    cases busy with
    | block busy live =>
      have active : branch ≠ .ended := by
        rintro rfl
        cases first
      obtain ⟨last, fails, happens⟩ := ih (busy branch (by simp) active)
      cases fails
      refine ⟨failure, fails_with others mode, happens.trans ?_⟩
      have more := others.faults_prefix
      rwa [World.faults_observe] at more

end Part

/-- How a turn in a live scope adds to the failures. Only a turn that skips what has not started fails
without a failure of a call. -/
inductive World.Reports (w w' : World) : Progress → Prop where
  | waits {task : Task} (same : w'.trace.faults = w.trace.faults) (live : w.cancelled = false)
    (later : w'.cancelled = false) : Reports w w' (.waiting task)
  | ends (same : w'.trace.faults = w.trace.faults) (token : w'.cancelled = w.cancelled) :
    Reports w w' (.ended (.ok ()))
  | fails {failure : Failure} (first : w.trace.faults ++ [failure] <+: w'.trace.faults) :
    Reports w w' (.ended (.error failure))
  | skips (same : w'.trace.faults = w.trace.faults) (late : w.cancelled = true) :
    Reports w w' (.ended (.error .cancelled))

theorem World.Reports.after {w mid w' : World} {progress : Progress}
    (reports : Reports mid w' progress) (same : mid.trace.faults = w.trace.faults)
    (token : mid.cancelled = w.cancelled) : Reports w w' progress := by
  cases reports with
  | waits same' live later => exact .waits (same'.trans same) (token ▸ live) later
  | ends same' token' => exact .ends (same'.trans same) (token'.trans token)
  | fails first => exact .fails (same ▸ first)
  | skips same' late => exact .skips (same'.trans same) (token ▸ late)

theorem Call.Lands.reports {call : Call} {w mid w' : World} {state : Call ⊕ Outcome}
    (lands : call.Lands mid w' state) (same : mid.trace.faults = w.trace.faults)
    (live : mid.cancelled = false → w.cancelled = false) : w.Reports w' (.ofCall state) := by
  have faults := lands.faults
  cases lands with
  | asleep _ token => exact .waits same (live token) token
  | completed output token =>
    obtain ⟨-, later⟩ := (Lands.completed output token).token rfl
    rw [same] at faults
    exact .ends (faults.trans (List.append_nil _)) (later.trans (live token).symm)
  | failed fails =>
    rw [same] at faults
    refine .fails ?_
    rw [faults]
    exact List.prefix_rfl

namespace Part

variable {setting : Setting} {part : Part} {place : Position} {w w' : World}

-- A part reports its first failure if its scope is not cancelled while a call of it is in flight. A run
-- whose token is cancelled beforehand skips everything, and then no call is in flight; in any other
-- turn the token is live at the start, so a first failure is that of a call.
theorem Proceeds.reports {progress : Progress} (h : Proceeds setting part place w w' progress)
    (mode : setting.mode = .firstObserved) (live : w.cancelled = true → part.calls = 0) :
    w.Reports w' progress := by
  induction h with
  | ended | finished => exact .ends rfl rfl
  | skip late => exact .skips (World.faults_emit_of_none _ rfl) late
  | @start invocation place w w' state token started =>
    obtain ⟨called, mid, stirs, lands⟩ := Call.start_lands started
    refine lands.reports ?_ fun _ => token
    rw [stirs.trace]
    exact World.faults_emit_of_none w rfl
  | resume resumed =>
    obtain ⟨mid, stirs, lands⟩ := Call.resume_lands resumed
    exact lands.reports (by rw [stirs.trace]) stirs.live
  | @wait index current elements place w w' task first ih =>
    rw [calls_sequence] at live
    cases ih live with
    | waits same token later => exact .waits same token later
  | @next index current elements place w mid w' progress first others ih later =>
    rw [calls_sequence] at live
    cases ih live with
    | ends same token => exact (later fun _ => calls_rest _ _).after same token
  | stop first ih =>
    rw [calls_sequence] at live
    exact ih live
  | @rest tasks queue handedBack place w begun =>
    rcases progress : Progress.ofBranches tasks queue handedBack with task | outcome
    · obtain ⟨rfl, waits⟩ := Task.ofBranches_waiting progress
      have token : w.cancelled = false :=
        Bool.eq_false_iff.2 fun late => (begun waits).calls_ne_zero (live late)
      exact .waits rfl token token
    · unfold Progress.ofBranches at progress
      split at progress <;> cases progress
      exact .ends rfl rfl
  | branchWaits first others ih later =>
    rw [calls_block _ _ _ _ []] at live
    cases ih fun late => (add_eq_zero.1 (live late)).1 with
    | waits same token still =>
      -- The branch waits, so the token is live when the next branch takes its turn.
      have idle := later fun late => absurd late (by rw [still]; exact Bool.false_ne_true)
      exact idle.after same (still.trans token.symm)
  | branchOk first others ih later =>
    rw [calls_block _ _ _ _ []] at live
    cases ih fun late => (add_eq_zero.1 (live late)).1 with
    | ends same token =>
      exact (later fun late => (add_eq_zero.1 (live (token ▸ late))).2).after same token
  | @branchFails before after branch place w mid w' outcome failure remaining first others ih =>
    rw [calls_block _ _ _ _ [failure]] at live
    cases others.fails_with mode
    cases ih fun late => (add_eq_zero.1 (live late)).1 with
    | fails happens =>
      have more := others.faults_prefix
      rw [World.faults_observe] at more
      exact .fails (happens.trans more)
    | skips same late =>
      -- The block drains without a call in flight, so no other failure takes the first place.
      have idle := others.faults_of_idle (add_eq_zero.1 (live late)).2
      rw [World.faults_observe] at idle
      exact .skips (idle.trans same) late

/-- A run reports its first failure; without one it ends well or was cancelled. -/
theorem Finishes.reports {outcome : Outcome} (h : Finishes setting part w w' outcome)
    (mode : setting.mode = .firstObserved) (live : w.cancelled = true → part.calls = 0) :
    w.Reports w' (.ended outcome) := by
  induction h with
  | ended turn => exact turn.reports mode live
  | @waits part w mid w' task instant outcome turn finishes ih =>
    cases turn.reports mode live with
    | waits same token still =>
      have later := ih fun late => absurd (show mid.cancelled = true from late) (by simp [still])
      exact later.after same (still.trans token.symm)
  | cancelled busy unwound =>
    obtain ⟨failure, rfl, first⟩ := unwound.first_of_busy mode busy
    exact .fails first

end Part

/-- A run that reports the first failure only fails with the failure that an observer is told of
first; if no call fails it ends well or was cancelled. -/
theorem Workflow.run_reports_first (workflow : Workflow) (setting : Setting)
    (cancellation : Cancellation) (called : List String) (id : String)
    (mode : setting.mode = .firstObserved) :
    (∀ before first after,
      (workflow.run setting cancellation called).FirstFailure id before first after →
      ∃ name failure, first.happening.failure? = some failure ∧
        Event.ofHappening id first.happening = some (.invocationFailed id name failure.message) ∧
        (workflow.run setting cancellation called).outcome = .error failure ∧
        ((workflow.run setting cancellation called).events id).getLast? =
          some (.workflowFailed id failure.message)) ∧
    ((∀ name error, .invocationFailed id name error ∉
        (workflow.run setting cancellation called).events id) →
      (workflow.run setting cancellation called).outcome = .ok () ∨
      (workflow.run setting cancellation called).outcome = .error .cancelled) := by
  rw [workflow.run_events setting cancellation called id]
  obtain ⟨w, outcome, eq, finishes⟩ := workflow.run_finishes setting cancellation called
  have reports := finishes.reports mode fun _ => workflow.root.calls_part
  have fresh : (workflow.world called cancellation.before).trace.faults = [] := rfl
  rw [eq]
  constructor
  · intro before first after found
    obtain ⟨name, failure, fails, told, all⟩ := found.faults
    rw [close_faults] at all
    have reported : outcome = .error failure := by
      cases reports with
      | ends same _ => exact absurd (all.symm.trans same) (List.cons_ne_nil _ _)
      | fails happens =>
        rw [all, fresh] at happens
        rw [(List.cons_prefix_cons.1 happens).1]
      | skips same _ => exact absurd (all.symm.trans same) (List.cons_ne_nil _ _)
    subst reported
    refine ⟨name, failure, fails, told, rfl, ?_⟩
    rw [close_trace, Event.ofTrace, List.filterMap_append]
    exact List.getLast?_concat
  · intro none
    have clean := Run.faults_eq_nil id none
    rw [close_faults] at clean
    cases reports with
    | ends _ _ => exact .inl rfl
    | fails happens =>
      rw [clean] at happens
      exact absurd (List.prefix_nil.1 happens) (List.append_ne_nil_of_right_ne_nil _ (by simp))
    | skips _ _ => exact .inr rfl

/-- A block whose first branch is a block: there a call waits when the next one fails. -/
def Workflow.nested : Workflow :=
  .ofTree .empty (.parallel
    [.parallel [.invocation { name := "slow" }, .invocation { name := "missing" }],
      .invocation { name := "other" }])

theorem Workflow.nested_reports_first : ∃ before first after,
    first.happening.failure? = some (.invocation "missing" (.notRegistered "missing")) ∧
    Trace.faults (.ofMoments after) = [.cancelled] ∧
    (nested.run { host := ⟨[("slow", .scripted [[.delay 5]])], false⟩ } {} []).FirstFailure "nested"
      before first after ∧
    (nested.run { host := ⟨[("slow", .scripted [[.delay 5]])], false⟩ } {} []).outcome =
      .error (.invocation "missing" (.notRegistered "missing")) := by
  let setting : Setting := { host := ⟨[("slow", .scripted [[.delay 5]])], false⟩ }
  let first : Moment := { store := .empty, called := ["slow"], timers := 1,
                          happening := .failed [0, 1] "missing" (.notRegistered "missing") }
  obtain ⟨moments, ran, split, earliest, faults⟩ : ∃ moments,
      (nested.run setting {} []).moments = moments ∧
      moments = moments.take 3 ++ first :: moments.drop 4 ∧
      (∀ m ∈ moments.take 3, m.happening.failure? = none) ∧
      Trace.faults (.ofMoments (moments.drop 4)) = [.cancelled] :=
    ⟨_, congrArg Run.moments (run_of_after 1 rfl), rfl, by decide, by decide⟩
  have found : (nested.run setting {} []).FirstFailure "nested" (moments.take 3) first
      (moments.drop 4) :=
    ⟨ran.trans split, ⟨"missing", _, rfl⟩, fun m mem =>
      (Happening.failure?_eq_none "nested").1 (earliest m mem)⟩
  obtain ⟨reports, -⟩ := run_reports_first nested setting {} [] "nested" rfl
  obtain ⟨name, failure, fails, -, outcome, -⟩ := reports _ _ _ found
  cases fails
  exact ⟨_, _, _, rfl, faults, found, outcome⟩

end FlowTree

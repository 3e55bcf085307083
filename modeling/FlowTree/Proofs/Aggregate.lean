import FlowTree.Proofs.Run.Faults
import FlowTree.Proofs.Run.Records

/-! A run that reports all failures loses none, invents none and keeps their order. A block joins the
failures of its branches in the order in which they end, and nothing else fails while a branch
drains, so the leaves of the joined failure stand in the order of the trace. -/

set_option autoImplicit false

namespace FlowTree

abbrev Leaf := String × CallError

namespace Failure

mutual

def leaves : Failure → List Leaf
  | .cancelled => []
  | .invocation name source => [(name, source)]
  | .parallel failures => leavesAll failures

def leavesAll : List Failure → List Leaf
  | [] => []
  | f :: rest => leaves f ++ leavesAll rest

end

theorem leavesAll_append (as bs : List Failure) :
    leavesAll (as ++ bs) = leavesAll as ++ leavesAll bs := by
  induction as with
  | nil => rfl
  | cons f rest ih => rw [List.cons_append, leavesAll, leavesAll, ih, List.append_assoc]

theorem leavesAll_singleton (f : Failure) : leavesAll [f] = f.leaves := List.append_nil _

def Whole (f : Failure) : Prop := f.leaves = [] → f = .cancelled

theorem leavesAll_filter (failures : List Failure) :
    leavesAll (failures.filter (!·.isCancelled)) = leavesAll failures := by
  induction failures with
  | nil => rfl
  | cons f rest ih =>
    cases f with
    | cancelled => exact ih
    | invocation name source => exact congrArg (_ :: ·) ih
    | parallel parts => exact congrArg (_ ++ ·) ih

theorem leaves_join (failures : List Failure) :
    (FailureMode.join failures).leaves = leavesAll failures := by
  rw [← leavesAll_filter failures]
  unfold FailureMode.join
  split
  · next none => rw [none]; rfl
  · next only one => rw [one, leavesAll_singleton]
  · rfl

theorem join_whole {failures : List Failure} (each : ∀ f ∈ failures, f.Whole) :
    (FailureMode.join failures).Whole := by
  unfold FailureMode.join
  split
  · exact fun _ => rfl
  · next only one =>
    have mem : only ∈ failures.filter (!·.isCancelled) := one ▸ List.mem_singleton_self only
    exact each only (List.mem_filter.1 mem).1
  · next none _ =>
    -- A joint failure has a part that is no cancellation, and with it a leaf.
    intro leafless
    cases several : failures.filter (!·.isCancelled) with
    | nil => exact absurd several none
    | cons f rest =>
      have mem : f ∈ failures.filter (!·.isCancelled) := several ▸ List.mem_cons_self
      obtain ⟨mem, active⟩ := List.mem_filter.1 mem
      rw [several] at leafless
      rw [each f mem (List.append_eq_nil_iff.1 leafless).1] at active
      cases active

end Failure

namespace Trace

def failures (trace : Trace) : List Leaf := Failure.leavesAll trace.faults

end Trace

namespace Event

def ofLeaf (id : String) (leaf : Leaf) : Event :=
  .invocationFailed id leaf.1 (Failure.invocation leaf.1 leaf.2).message

/-- Whether the event tells of a failure that is no cancellation. -/
def tellsFailure : Event → Bool
  | .invocationFailed _ _ error => error ≠ Failure.cancelled.message
  | _ => false

theorem tellsFailure_ofLeaf (id : String) (leaf : Leaf) : (ofLeaf id leaf).tellsFailure = true :=
  decide_eq_true (Failure.message_invocation_ne leaf.1 leaf.2)

/-- The events tell of the failures of a trace, each once and in order. -/
theorem filter_ofTrace (id : String) (trace : Trace) :
    (ofTrace id trace).filter tellsFailure = trace.failures.map (ofLeaf id) := by
  induction trace with
  | nil => rfl
  | cons head rest ih =>
    cases head with
    | failed place name error =>
      have first : ofTrace id (.failed place name error :: rest) =
          ofLeaf id (name, error) :: ofTrace id rest := rfl
      rw [first, List.filter_cons_of_pos (tellsFailure_ofLeaf id (name, error)), ih]
      rfl
    | _ => exact ih

end Event

namespace Progress

def leaves : Progress → List Leaf
  | .ended (.error failure) => failure.leaves
  | _ => []

def Whole (progress : Progress) : Prop :=
  ∀ failure, progress = .ended (.error failure) → failure.Whole

theorem leavesAll_fault (progress : Progress) :
    Failure.leavesAll progress.fault = progress.leaves := by
  cases progress with
  | waiting task => rfl
  | ended outcome =>
    cases outcome with
    | ok => rfl
    | error failure => exact Failure.leavesAll_singleton failure

theorem settle_leaves (failures : List Failure) :
    (Progress.ended (FailureMode.aggregate.settle failures)).leaves = Failure.leavesAll failures := by
  cases failures with
  | nil => rfl
  | cons f rest => exact Failure.leaves_join (f :: rest)

theorem settle_whole {failures : List Failure} (each : ∀ f ∈ failures, f.Whole) :
    (Progress.ended (FailureMode.aggregate.settle failures)).Whole := by
  intro failure eq
  cases failures with
  | nil => cases eq
  | cons f rest =>
    cases eq
    exact Failure.join_whole each

end Progress

theorem Call.FailsBy.whole {call : Call} {entry : Happening} {failure : Failure}
    (fails : call.FailsBy entry failure) : failure.Whole := by
  cases fails with
  | failed error => exact fun leafless => absurd leafless (List.cons_ne_nil _ _)
  | cancelled abandoned => exact fun _ => rfl

theorem Call.Lands.whole {call : Call} {w w' : World} {state : Call ⊕ Outcome}
    (lands : call.Lands w w' state) : (Progress.ofCall state).Whole := by
  intro failure eq
  cases lands with
  | asleep | completed => cases eq
  | failed fails =>
    cases eq
    exact fails.whole

/-- A turn that ends with the failures that it adds to the trace. -/
structure World.Gathers (w w' : World) (progress : Progress) : Prop where
  adds : w'.trace.failures = w.trace.failures ++ progress.leaves
  whole : progress.Whole

namespace World.Gathers

variable {w mid w' : World} {progress : Progress}

theorem of_same (same : w'.trace.failures = w.trace.failures) (none : progress.fault = []) :
    w.Gathers w' progress := by
  refine ⟨?_, fun failure eq => ?_⟩
  · rw [← progress.leavesAll_fault, none, same]
    exact (List.append_nil _).symm
  · rw [eq] at none
    cases none

theorem same (gathers : w.Gathers mid progress) (none : progress.fault = []) :
    mid.trace.failures = w.trace.failures := by
  rw [gathers.adds, ← progress.leavesAll_fault, none]
  exact List.append_nil _

theorem after (gathers : mid.Gathers w' progress) (same : mid.trace.failures = w.trace.failures) :
    w.Gathers w' progress := ⟨same ▸ gathers.adds, gathers.whole⟩

theorem of_faults (faults : w'.trace.faults = w.trace.faults ++ progress.fault)
    (whole : progress.Whole) : w.Gathers w' progress := by
  refine ⟨?_, whole⟩
  rw [Trace.failures, faults, Failure.leavesAll_append, Progress.leavesAll_fault]
  rfl

end World.Gathers

namespace Part

variable {setting : Setting} {part : Part} {place : Position} {w w' : World}

-- A part whose scope is cancelled ends with the failures that it has observed, and then those that
-- happen while it drains. The trace so far ends with what the block has observed; this is kept because
-- a branch adds its own failures before the block observes anything else.
theorem Unwinds.gathers {outcome : Outcome} (h : Unwinds setting part place w w' outcome)
    (mode : setting.mode = .aggregate) (before : List Leaf)
    (observed : w.trace.failures = before ++ Failure.leavesAll part.observed)
    (whole : ∀ f ∈ part.observed, f.Whole) :
    w'.trace.failures = before ++ (Progress.ended outcome).leaves ∧
      (Progress.ended outcome).Whole := by
  induction h generalizing before with
  | ended | finished => exact ⟨observed, nofun⟩
  | skip =>
    refine ⟨?_, ?_⟩
    · rw [Trace.failures, World.faults_skip]
      exact observed
    · intro failure eq leafless
      cases eq
      rfl
  | call unwound =>
    obtain ⟨mid, entry, -, -, fails⟩ := Call.unwind_fails unwound
    refine ⟨?_, ?_⟩
    · rw [Trace.failures, Call.unwind_faults unwound, Failure.leavesAll_append,
        Failure.leavesAll_singleton]
      exact congrArg (· ++ _) (observed.trans (List.append_nil _))
    · intro failure eq
      cases eq
      exact fails.whole
  | next fresh first others ih later =>
    rw [fresh] at ih
    exact later _ (ih before observed nofun).1 nofun
  | stop fresh first ih =>
    rw [fresh] at ih
    exact ih before observed nofun
  | drained all =>
    rw [mode, Progress.settle_leaves]
    exact ⟨observed, Progress.settle_whole whole⟩
  | branchOk fresh first others ih later =>
    rw [fresh] at ih
    obtain ⟨same, -⟩ := ih _ (observed.trans (List.append_nil _).symm) nofun
    exact later before (same.trans (List.append_nil _)) whole
  | @branchFails _ _ _ failures place _ mid _ _ failure remaining fresh first others ih later =>
    rw [fresh] at ih
    obtain ⟨more, last⟩ := ih _ (observed.trans (List.append_nil _).symm) nofun
    -- The failure of the branch comes after those that the block has observed.
    refine later before ?_ fun f mem => ?_
    · rw [Trace.failures, World.faults_observe]
      calc Failure.leavesAll mid.trace.faults
          = before ++ Failure.leavesAll failures ++ failure.leaves := more
        _ = before ++ Failure.leavesAll (failures ++ [failure]) := by
          rw [Failure.leavesAll_append, Failure.leavesAll_singleton, List.append_assoc]
    · rcases List.mem_append.1 mem with mem | mem
      · exact whole f mem
      · cases List.mem_singleton.1 mem
        exact last _ rfl

theorem Proceeds.gathers {progress : Progress} (h : Proceeds setting part place w w' progress)
    (mode : setting.mode = .aggregate) : w.Gathers w' progress := by
  induction h with
  | ended | finished => exact .of_same rfl rfl
  | skip late =>
    refine ⟨?_, fun failure eq leafless => ?_⟩
    · rw [Trace.failures, World.faults_skip]
      exact (List.append_nil _).symm
    · cases eq
      rfl
  | start live started =>
    obtain ⟨called, mid, -, lands⟩ := Call.start_lands started
    exact .of_faults (Call.start_faults started) lands.whole
  | resume resumed =>
    obtain ⟨mid, -, lands⟩ := Call.resume_lands resumed
    exact .of_faults (Call.resume_faults resumed) lands.whole
  | wait first ih => exact .of_same (ih.same rfl) rfl
  | next first others ih later => exact later.after (ih.same rfl)
  | stop first ih => exact ih
  | rest busy =>
    unfold Progress.ofBranches
    split <;> exact .of_same rfl rfl
  | branchWaits first others ih later => exact later.after (ih.same rfl)
  | branchOk first others ih later => exact later.after (ih.same rfl)
  | @branchFails before after branch place w mid w' outcome failure remaining first others ih =>
    have start : (observe setting.mode place [] remaining failure mid).trace.failures =
        w.trace.failures ++ Failure.leavesAll [failure] := by
      rw [Trace.failures, World.faults_observe, Failure.leavesAll_singleton]
      exact ih.adds
    have each : ∀ f ∈ [failure], f.Whole := by
      intro f mem
      cases List.mem_singleton.1 mem
      exact ih.whole _ rfl
    obtain ⟨adds, whole⟩ := others.gathers mode w.trace.failures start each
    exact ⟨adds, whole⟩

theorem Finishes.gathers {outcome : Outcome} (h : Finishes setting part w w' outcome)
    (mode : setting.mode = .aggregate) : w.Gathers w' (.ended outcome) := by
  induction h with
  | ended turn => exact turn.gathers mode
  | waits turn finishes ih => exact ih.after ((turn.gathers mode).same rfl)
  | @cancelled part w w' instant outcome busy unwound =>
    have none : part.observed = [] := by
      cases busy <;> rfl
    have start : w.trace.failures = w.trace.failures ++ Failure.leavesAll part.observed := by
      rw [none]
      exact (List.append_nil _).symm
    have each : ∀ f ∈ part.observed, f.Whole := by
      rw [none]
      nofun
    obtain ⟨adds, whole⟩ := unwound.gathers mode w.trace.failures start each
    exact ⟨adds, whole⟩

end Part

/-- A run that reports all failures fails with the failures of its calls, each once and in the order
of the events; if no call fails by itself, it can only fail by a cancellation. -/
theorem Workflow.run_aggregates (workflow : Workflow) (setting : Setting)
    (cancellation : Cancellation) (called : List String) (id : String)
    (mode : setting.mode = .aggregate) :
    ((∃ event ∈ (workflow.run setting cancellation called).events id, event.tellsFailure) →
      ∃ failure, (workflow.run setting cancellation called).outcome = .error failure ∧
        failure.leaves = (workflow.run setting cancellation called).trace.failures ∧
        failure.leaves.map (Event.ofLeaf id) =
          ((workflow.run setting cancellation called).events id).filter Event.tellsFailure) ∧
    (∀ failure, (workflow.run setting cancellation called).outcome = .error failure →
      (∀ event ∈ (workflow.run setting cancellation called).events id, ¬ event.tellsFailure) →
      failure = .cancelled) := by
  rw [workflow.run_events setting cancellation called id]
  obtain ⟨w, outcome, eq, finishes⟩ := workflow.run_finishes setting cancellation called
  obtain ⟨adds, whole⟩ := finishes.gathers mode
  have failures : (close w outcome).trace.failures = (Progress.ended outcome).leaves := by
    rw [Trace.failures, close_faults]
    exact adds
  have told := Event.filter_ofTrace id (close w outcome).trace
  rw [failures] at told
  rw [eq]
  constructor
  · rintro ⟨event, mem, tells⟩
    have found := List.mem_filter.2 ⟨mem, tells⟩
    cases outcome with
    | ok =>
      rw [told] at found
      cases found
    | error failure => exact ⟨failure, rfl, failures.symm, told.symm⟩
  · intro failure fails none
    cases fails
    refine whole failure rfl ?_
    rw [List.filter_eq_nil_iff.2 none] at told
    exact List.map_eq_nil_iff.1 told.symm

def Workflow.triple : Workflow :=
  .ofTree .empty (.parallel
    [.parallel [.invocation { name := "a" }, .invocation { name := "b" }],
      .invocation { name := "c" }])

def Setting.failing : Setting where
  host := ⟨["a", "b", "c"].map fun name => (name, .scripted [[.delay 5, .fail name]]), false⟩
  mode := .aggregate

theorem Workflow.triple_aggregates : ∃ failure,
    (triple.run .failing {} []).outcome = .error failure ∧
    failure.leaves = [("a", .failed "a"), ("b", .failed "b"), ("c", .failed "c")] := by
  obtain ⟨w, ended, fails⟩ : ∃ w,
      Machine.run .failing none triple.root (triple.world [] false) =
        (w, .error (.parallel
          [.parallel [.invocation "a" (.failed "a"), .invocation "b" (.failed "b")],
            .invocation "c" (.failed "c")])) ∧
      w.trace.failures = [("a", .failed "a"), ("b", .failed "b"), ("c", .failed "c")] :=
    ⟨_, Machine.run_of_after 3 rfl, by decide⟩
  have ran : (triple.run .failing {} []).trace.failures = w.trace.failures := by
    rw [run, ended]
    exact congrArg Failure.leavesAll (close_faults w _)
  have tells : Event.ofLeaf "triple" ("a", .failed "a") ∈
      ((triple.run .failing {} []).events "triple").filter Event.tellsFailure := by
    rw [run_events, Event.filter_ofTrace, ran, fails]
    exact List.mem_cons_self
  obtain ⟨reports, -⟩ := run_aggregates triple .failing {} [] "triple" rfl
  obtain ⟨mem, active⟩ := List.mem_filter.1 tells
  obtain ⟨failure, outcome, leaves, -⟩ := reports ⟨_, mem, active⟩
  exact ⟨failure, outcome, leaves.trans (ran.trans fails)⟩

end FlowTree

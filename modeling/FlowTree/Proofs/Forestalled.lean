import FlowTree.Proofs.FirstObserved
import FlowTree.Proofs.Observation
import FlowTree.Proofs.Run.Frontier
import FlowTree.Proofs.Run.Late

/-! A run whose token is cancelled beforehand does nothing. It passes over the parts of the tree that
have no invocation, skips the invocations that it comes to first on every way, and ends as soon as it
has skipped them. -/

set_option autoImplicit false

namespace FlowTree

def Happening.skipped? : Happening → Option CallId
  | .skipped place name => some (place, name)
  | _ => none

def Trace.skipped (trace : Trace) : List CallId := trace.filterMap Happening.skipped?

namespace Statement

section Skip

variable {mode : FailureMode} {parts : List Statement} {place : Position}

/-- How a statement ends that is skipped: nothing is amiss when nothing was to be done. -/
def forestalled (s : Statement) : Outcome :=
  if s.invocationCount = 0 then .ok () else .error .cancelled

theorem forestalled_ok {s : Statement} (none : s.invocationCount = 0) : s.forestalled = .ok () :=
  if_pos none

theorem forestalled_error {s : Statement} (filled : s.invocationCount ≠ 0) :
    s.forestalled = .error .cancelled :=
  if_neg filled

/-- A skipped statement leaves an entry for each invocation of its frontier. -/
structure Skims (s : Statement) (place : Position) (w : World) (result : World × Outcome) : Prop where
  outcome : result.2 = s.forestalled
  skipped : result.1.trace.skipped = w.trace.skipped ++ s.frontier place

theorem skipped_observe (place : Position) (earlier : List Failure) (remaining : Nat)
    (failure : Failure) (w : World) :
    (observe mode place earlier remaining failure w).trace.skipped = w.trace.skipped := by
  rcases observe_notes mode place earlier remaining failure w with same | notes
  · rw [same]
  · obtain ⟨mid, entry, tells, eq, noted⟩ := notes.emits
    rw [eq]
    cases tells
    cases noted <;> exact World.filterMap_emit _ rfl

theorem skipSequence_skims (mode : FailureMode) (place : Position)
    (each : ∀ s ∈ parts, ∀ place w, s.Skims place w (skip mode s place w)) (index : Nat) (w : World) :
    (skipSequence mode parts place index w).2 = (sequence parts).forestalled ∧
      (skipSequence mode parts place index w).1.trace.skipped =
        w.trace.skipped ++ sequenceFrontier parts place index := by
  induction parts generalizing index w with
  | nil => exact ⟨rfl, (List.append_nil _).symm⟩
  | cons s rest ih =>
    have head := each s List.mem_cons_self (place ++ [index]) w
    have tail := ih fun s mem => each s (List.mem_cons_of_mem _ mem)
    rw [skipSequence, sequenceFrontier]
    by_cases none : s.invocationCount = 0
    · have same : (sequence (s :: rest)).forestalled = (sequence rest).forestalled := by
        rw [forestalled, forestalled, invocationCount, invocationCounts, none, Nat.zero_add]
        rfl
      obtain ⟨outcome, skipped⟩ := head
      rw [forestalled_ok none] at outcome
      rw [frontier_of_none none, List.append_nil] at skipped
      rcases result : skip mode s (place ++ [index]) w with ⟨w', ended⟩
      rw [result] at outcome skipped
      cases outcome
      rw [if_pos none, same, ← skipped]
      exact tail (index + 1) w'
    · obtain ⟨outcome, skipped⟩ := head
      rw [forestalled_error none] at outcome
      rcases result : skip mode s (place ++ [index]) w with ⟨w', ended⟩
      rw [result] at outcome skipped
      cases outcome
      rw [if_neg none]
      have filled : (sequence (s :: rest)).invocationCount ≠ 0 := by
        rw [invocationCount, invocationCounts]
        omega
      exact ⟨(forestalled_error filled).symm, skipped⟩

def filled (branches : List Statement) : Nat :=
  (branches.filter (·.invocationCount ≠ 0)).length

theorem filled_eq_zero : filled parts = 0 ↔ invocationCounts parts = 0 := by
  induction parts with
  | nil => exact iff_of_true rfl rfl
  | cons s rest ih =>
    rw [invocationCounts, Nat.add_eq_zero_iff, ← ih, filled, filled, List.filter_cons]
    split <;> simp_all

theorem skipBranches_skims (mode : FailureMode) (place : Position)
    (each : ∀ s ∈ parts, ∀ place w, s.Skims place w (skip mode s place w)) (index : Nat)
    (failures : List Failure) (w : World) :
    (skipBranches mode parts place index failures w).2 =
        failures ++ List.replicate (filled parts) .cancelled ∧
      (skipBranches mode parts place index failures w).1.trace.skipped =
        w.trace.skipped ++ branchesFrontier parts place index := by
  induction parts generalizing index failures w with
  | nil => exact ⟨(List.append_nil _).symm, (List.append_nil _).symm⟩
  | cons s rest ih =>
    obtain ⟨outcome, skipped⟩ := each s List.mem_cons_self (place ++ [index]) w
    have tail := ih fun s mem => each s (List.mem_cons_of_mem _ mem)
    rw [skipBranches, branchesFrontier, ← List.append_assoc, ← skipped]
    rcases result : skip mode s (place ++ [index]) w with ⟨w', ended⟩
    rw [result] at outcome
    by_cases none : s.invocationCount = 0
    · have same : filled (s :: rest) = filled rest := by simp [filled, none]
      rw [forestalled_ok none] at outcome
      cases outcome
      rw [same]
      exact tail (index + 1) failures w'
    · have more : filled (s :: rest) = filled rest + 1 := by simp [filled, none]
      rw [forestalled_error none] at outcome
      cases outcome
      obtain ⟨all, skipped'⟩ := tail (index + 1) (failures ++ [.cancelled])
        (observe mode place failures rest.length .cancelled w')
      rw [skipped_observe] at skipped'
      refine ⟨all.trans ?_, skipped'⟩
      rw [more, List.replicate_succ, List.append_assoc, List.singleton_append]

/-- Cancelled branches alone let a block be cancelled, whatever it reports. -/
theorem settle_replicate (mode : FailureMode) (n : Nat) :
    mode.settle (List.replicate n .cancelled) = if n = 0 then .ok () else .error .cancelled := by
  cases n with
  | zero => rfl
  | succ n =>
    have none : (List.replicate (n + 1) Failure.cancelled).filter (!·.isCancelled) = [] := by
      rw [List.filter_eq_nil_iff]
      intro failure mem
      rw [List.eq_of_mem_replicate mem]
      exact Bool.false_ne_true
    cases mode with
    | firstObserved => rfl
    | aggregate =>
      rw [List.replicate_succ] at none ⊢
      rw [FailureMode.settle, FailureMode.join, none]
      rfl

theorem skip_skims (s : Statement) (place : Position) (w : World) :
    s.Skims place w (skip mode s place w) := by
  induction s generalizing place w with
  | noop => exact ⟨rfl, (List.append_nil _).symm⟩
  | invocation call =>
    refine ⟨rfl, ?_⟩
    rw [skip, World.skip, World.trace_emit]
    exact List.filterMap_append
  | sequence elements ih =>
    rw [skip]
    obtain ⟨outcome, skipped⟩ := skipSequence_skims mode place ih 0 w
    exact ⟨outcome, skipped⟩
  | parallel branches ih =>
    obtain ⟨failures, skipped⟩ := skipBranches_skims mode place ih 0 [] w
    rw [skip]
    refine ⟨?_, skipped⟩
    show mode.settle (skipBranches mode branches place 0 [] w).2 = _
    rw [failures, List.nil_append, settle_replicate, forestalled, invocationCount]
    simp only [filled_eq_zero]

end Skip

end Statement

theorem LogEntry.skips_ofTrace (trace : Trace) :
    (ofTrace trace).filter (·.message = "skipping invocation in cancelled scope") =
      trace.skipped.map fun site => skip site.2 := by
  induction trace with
  | nil => rfl
  | cons head rest ih =>
    cases head with
    | skipped place name => exact congrArg (skip name :: ·) ih
    | _ => exact ih

theorem Trace.skipped_le_met (trace : Trace) : ↑trace.skipped ≤ trace.met := by
  refine Multiset.coe_le.2 (List.Sublist.subperm ?_)
  induction trace with
  | nil => exact .slnil
  | cons head rest ih =>
    cases head with
    | started place name => exact ih.cons (place, name)
    | skipped place name => exact ih.cons_cons (place, name)
    | _ => exact ih

/-- An entry of a scope that comes to its end, which is about no call in flight, tells an observer
nothing. -/
theorem Happening.Drains.silent {happening : Happening} (drains : happening.Drains)
    (clean : happening.failure? = none) (id : String) : Event.ofHappening id happening = none := by
  cases drains with
  | failed | cancelled => cases clean
  | skipped => rfl
  | noted notes => cases notes <;> rfl

structure Run.Forestalled (run : Run) (workflow : Workflow) (called : List String) (id : String) :
    Prop where
  calls : run.trace.calls = []
  called : run.called = called
  elapsed : run.elapsed = 0
  store : run.store = workflow.seed
  events : run.events id =
    [.workflowStarted id workflow.id, .closing id run.outcome]
  /-- Each invocation that can be reached without passing another one leaves an entry in the log, and
  no other one is skipped. -/
  skips : ∃ sites : List CallId, sites.Nodup ∧
    (∀ place name, (place, name) ∈ sites ↔
      ∃ call, workflow.root.Frontier place call ∧ call.name = name) ∧
    run.log.filter (·.message = "skipping invocation in cancelled scope") =
      sites.map fun site => LogEntry.skip site.2
  outcome : run.outcome =
    if workflow.root.invocationCount = 0 then .ok () else .error .cancelled

/-- A run whose token is cancelled beforehand does nothing. -/
theorem Workflow.run_forestalled (workflow : Workflow) (setting : Setting) (at? : Option Nat)
    (called : List String) (id : String) :
    (workflow.run setting ⟨true, at?⟩ called).Forestalled workflow called id := by
  have met := workflow.run_met setting ⟨true, at?⟩ called
  have told := workflow.run_events setting ⟨true, at?⟩ called id
  have logged := workflow.run_log setting ⟨true, at?⟩ called
  obtain ⟨ended, skipped⟩ := workflow.root.skip_skims [] (workflow.world called true)
  rcases result : workflow.root.skip setting.mode [] (workflow.world called true) with ⟨w, outcome⟩
  rw [result] at ended skipped
  have start : workflow.run setting ⟨true, at?⟩ called = close w outcome := by
    rw [run, Machine.run_late setting at? workflow.root rfl, result]
  rw [start] at met told logged ⊢
  have unwinds := Statement.skip_unwinds workflow.root result
  have clean : w.trace.faults = [] := unwinds.faults_of_idle workflow.root.calls_part
  obtain ⟨still, later, grown, drains⟩ := unwinds.settled
  have trace : (close w outcome).trace =
      .workflowStarted workflow.id workflow.name workflow.seed.size ::
        Trace.ofMoments later ++ [closing outcome] := by
    rw [close_trace, World.trace_append grown]
    rfl
  have drains : ∀ h ∈ Trace.ofMoments later, h.Drains := by
    intro h mem
    obtain ⟨m, here, rfl⟩ := List.mem_map.1 mem
    exact (drains m here).2
  have sites : (close w outcome).trace.skipped = workflow.root.frontier [] := by
    refine (close_filterMap ?_ w outcome).trans skipped
    rintro (_ | _) <;> rfl
  constructor
  case calls =>
    rw [trace, Trace.calls, List.filterMap_append, List.filterMap_cons_none rfl]
    refine List.append_eq_nil_iff.2 ⟨calls_of_drains drains, ?_⟩
    cases outcome <;> rfl
  case called => exact still.called
  case elapsed => exact still.clock
  case store => exact still.store
  case events =>
    have silent : Event.ofTrace id (Trace.ofMoments later) = [] := by
      refine List.filterMap_eq_nil_iff.2 fun h mem => (drains h mem).silent ?_ id
      rw [World.trace_append grown] at clean
      exact List.filterMap_eq_nil_iff.1 clean h (List.mem_append_right _ mem)
    rw [told, trace, Event.ofTrace, List.filterMap_append, List.filterMap_cons, ← Event.ofTrace, silent,
      List.filterMap_cons_some (closing_event id outcome)]
    rfl
  case skips =>
    refine ⟨(close w outcome).trace.skipped, ?_, fun place name => ?_,
      logged ▸ LogEntry.skips_ofTrace _⟩
    · have apart := Multiset.Nodup.of_map _ workflow.root.callIds_apart
      exact Multiset.coe_nodup.1 (Multiset.nodup_of_le ((Trace.skipped_le_met _).trans met) apart)
    · rw [sites, Statement.mem_frontier]
      constructor
      · rintro ⟨rest, call, eq, here⟩
        cases eq
        exact ⟨call, here, rfl⟩
      · rintro ⟨call, here, rfl⟩
        exact ⟨place, call, rfl, here⟩
  case outcome => exact ended

end FlowTree

import FlowTree.Proofs.Forestalled
import FlowTree.Proofs.Liveness
import FlowTree.Proofs.Run.Verdicts
import Mathlib.Data.Multiset.ZeroCons

/-! A cancelled scope drains on the spot. Wherever a run stands, what is left of a statement whose scope is
cancelled ends in its next turn: calls that have not started are skipped, calls in flight end with the
failure that they have, if they have one, and else as cancelled, and nothing is written. A call that cancels
the token that its own scope belongs to ends in the same way. -/

set_option autoImplicit false

namespace FlowTree

open FlowTree.Part (Busy Unwinds Goes Shaped shutBelow)

def Trace.endings (trace : Trace) : Multiset Happening := ↑(trace.filter (·.closed?.isSome))

theorem Trace.endings_append (a b : Trace) : (a ++ b).endings = a.endings + b.endings := by
  rw [endings, List.filter_append, ← Multiset.coe_add]
  rfl

namespace Flight

variable {setting : Setting} {a b c : Flight}

def Closes (a b : Flight) : Prop :=
  ∃ (ended : Multiset Call) (later : Trace), a.calls = ended + b.calls ∧
    b.world.clock = a.world.clock ∧ b.world.trace = a.world.trace ++ later ∧
    Multiset.Rel (fun call entry => ∃ failure, call.EndsLate a.world.clock entry failure) ended
      later.endings

theorem Closes.idle {w : World} {todo left : Multiset Site} {calls : Multiset Call} :
    Closes ⟨w, todo, calls⟩ ⟨w, left, calls⟩ :=
  ⟨0, [], (zero_add _).symm, rfl, (List.append_nil _).symm, .zero⟩

theorem Closes.tell {w w' : World} {todo : Multiset Site} {calls : Multiset Call}
    (tells : w.Tells w') : Closes ⟨w, todo, calls⟩ ⟨w', todo, calls⟩ := by
  cases tells
  exact ⟨0, [], (zero_add _).symm, rfl, (List.append_nil _).symm, .zero⟩

theorem Closes.of_emit {w : World} {todo left : Multiset Site} {calls : Multiset Call}
    {entry : Happening} (silent : entry.closed? = none) :
    Closes ⟨w, todo, calls⟩ ⟨w.emit entry, left, calls⟩ := by
  refine ⟨0, [entry], (zero_add calls).symm, rfl, w.trace_emit entry, ?_⟩
  have none : Trace.endings [entry] = 0 := by simp [Trace.endings, silent]
  rw [none]
  exact .zero

theorem Closes.trans (first : Closes a b) (next : Closes b c) : Closes a c := by
  obtain ⟨xs, before, calls, clock, trace, ends⟩ := first
  obtain ⟨ys, after, calls', clock', trace', ends'⟩ := next
  refine ⟨xs + ys, before ++ after, ?_, clock'.trans clock, ?_, ?_⟩
  · rw [calls, calls', add_assoc]
  · rw [trace', trace, List.append_assoc]
  · rw [Trace.endings_append]
    exact ends.add (clock ▸ ends')

theorem Move.closes (move : Move setting .drain a b) (armed : ∀ call ∈ a.calls, call.Armed setting) :
    a.Closes b := by
  generalize drain : Phase.drain = phase at move
  cases move with
  | @start _ _ _ _ state =>
    rcases state with call | _ | _ <;> cases drain
  | @resume _ _ _ state =>
    rcases state with call | _ | _ <;> cases drain
  | @unwind call w w' failure todo calls unwound =>
    obtain ⟨entry, told, ends⟩ :=
      Call.unwind_endsLate (armed call (Multiset.mem_cons_self _ _)) unwound
    have closed : entry.closed?.isSome = true := by cases ends <;> rfl
    have only : Trace.endings [entry] = {entry} := by simp [Trace.endings, closed]
    refine ⟨{call}, [entry], (Multiset.singleton_add _ _).symm, Call.unwind_clock unwound, told, ?_⟩
    rw [only]
    exact .cons ⟨failure, ends⟩ .zero
  | skip late => exact Closes.trans (.tell (.intro _ _)) (.of_emit rfl)
  | forget lost => exact .idle
  | note notes =>
    obtain ⟨mid, entry, tells, rfl, noted⟩ := notes.emits
    cases noted <;> exact (Closes.tell tells).trans (.of_emit rfl)

theorem Move.drains_closes (drains : Phase.Drains (Move setting) a b)
    (armed : ∀ call ∈ a.calls, call.Armed setting) : a.Closes b := by
  induction drains with
  | refl => exact .idle
  | tail _ last ih =>
    have ⟨_, _, calls, _⟩ := ih
    refine ih.trans (last.closes fun call mem => armed call ?_)
    rw [calls]
    exact Multiset.mem_add.2 (.inr mem)

end Flight

namespace Part

variable {setting : Setting} {shut : Bool} {part : Part} {place : Position} {w w' : World}
  {outcome : Outcome}

theorem Shaped.armed (shaped : part.Shaped setting) : ∀ call ∈ part.calls, call.Armed setting := by
  induction shaped with
  | ended | unstarted | finished => exact fun call mem => absurd mem (Multiset.notMem_zero call)
  | calling armed =>
    intro call mem
    rwa [Multiset.mem_singleton.1 mem]
  | sequence first fresh ih =>
    rw [calls_sequence]
    exact ih
  | block each fresh ih =>
    intro call mem
    obtain ⟨b, found, within⟩ := mem_callsAll.1 mem
    exact ih b found call within

/-- A part whose scope is cancelled ends well only if nothing of it was left to be done and none of its
branches had failed. -/
theorem Unwinds.ok_iff (h : Unwinds setting part place w w' outcome) :
    outcome = .ok () ↔ part.calls = 0 ∧ part.todo place = 0 ∧ part.observed = [] := by
  induction h with
  | ended => exact iff_of_true rfl ⟨rfl, rfl, rfl⟩
  | skip => exact iff_of_false nofun fun none => Multiset.singleton_ne_zero _ none.2.1
  | call unwound => exact iff_of_false nofun fun none => Multiset.singleton_ne_zero _ none.1
  | finished => exact iff_of_true rfl ⟨rfl, rfl, rfl⟩
  | @next index current rest place w mid w' outcome fresh first others ih later =>
    obtain ⟨idle, none, -⟩ := ih.1 rfl
    rw [later, calls_sequence, idle, calls_rest, todo, todo, todoFrom, none, zero_add]
    rfl
  | @stop index current rest place w w' failure fresh first ih =>
    refine iff_of_false nofun fun none => ?_
    rw [calls_sequence, todo, todoFrom, add_eq_zero] at none
    cases ih.2 ⟨none.1, none.2.1.1, fresh⟩
  | drained all =>
    rw [setting.mode.settle_eq_ok, calls, callsAll_ended all, todo, todoFrom_ended all]
    exact ⟨fun none => ⟨rfl, rfl, none⟩, fun none => none.2.2⟩
  | @branchOk before after branch failures place w mid w' outcome fresh first others ih later =>
    obtain ⟨idle, none, -⟩ := ih.1 rfl
    rw [later, calls_block before branch after _ failures, todo_block before branch after _ failures, idle,
      none, zero_add, zero_add]
    rfl
  | @branchFails before after branch failures place w mid w' outcome failure remaining fresh first others
      ih later =>
    refine iff_of_false ?_ fun none => ?_
    · obtain ⟨last, rfl⟩ :=
        others.fails_of_observed (List.append_ne_nil_of_right_ne_nil _ (List.cons_ne_nil _ _))
      nofun
    · rw [calls_block before branch after _ failures, todo_block before branch after _ failures,
        add_eq_zero, add_eq_zero] at none
      cases ih.2 ⟨none.1.1, none.2.1.1, fresh⟩

structure EndsInPlace (part : Part) (place : Position) (w w' : World) (outcome : Outcome) : Prop where
  /-- No call goes out and none completes, nothing is written, and the clock stands still. -/
  settles : w.Settles w'
  /-- Each call in flight ends, by an entry of its own. -/
  closes : ∃ later : Trace, w'.trace = w.trace ++ later ∧
    Multiset.Rel (fun call entry => ∃ failure, call.EndsLate w.clock entry failure) part.calls
      later.endings
  ok_iff : outcome = .ok () ↔ part.calls = 0 ∧ part.todo place = 0 ∧ part.observed = []
  /-- A call ends as its entry tells. -/
  call : ∀ call, part = .calling call → ∃ entry failure, outcome = .error failure ∧
    w'.trace = w.trace ++ [entry] ∧ call.EndsLate w.clock entry failure

theorem Unwinds.endsInPlace (h : Unwinds setting part place w w' outcome) (shaped : part.Shaped setting) :
    part.EndsInPlace place w w' outcome := by
  constructor
  case settles => exact h.settled
  case closes =>
    have drains := h.drains 0 0
    rw [add_zero, add_zero] at drains
    obtain ⟨ended, later, calls, -, told, ends⟩ := Flight.Move.drains_closes drains shaped.armed
    exact ⟨later, told, by rwa [show part.calls = ended from calls.trans (add_zero ended)]⟩
  case ok_iff => exact h.ok_iff
  case call =>
    rintro call rfl
    cases shaped with
    | calling armed =>
      cases h with
      | call unwound =>
        obtain ⟨entry, told, ends⟩ := Call.unwind_endsLate armed unwound
        exact ⟨entry, _, rfl, told, ends⟩

-- The turns that the scheduler lets a part take, each in the scope that it is for.
inductive Scheduled (setting : Setting) : Bool → Part → Position → World → World → Progress → Prop where
  | start {s : Statement} {place : Position} {w w' : World} {progress : Progress}
    (polled : (Task.fresh s).poll setting place w = (w', progress)) :
    Scheduled setting false s.part place w w' progress
  | poll {task : Task} {place : Position} {w w' : World} {progress : Progress}
    (poised : task.Poised fun _ => True) (live : w.cancelled = false)
    (polled : task.poll setting place w = (w', progress)) :
    Scheduled setting false task.part place w w' progress
  | skip {shut : Bool} {s : Statement} {place : Position} {w w' : World} {outcome : Outcome}
    (late : w.scopeCancelled shut = true) (skipped : s.skip setting.mode place w = (w', outcome)) :
    Scheduled setting shut s.part place w w' (.ended outcome)
  | unwind {shut : Bool} {task : Task} {place : Position} {w w' : World} {outcome : Outcome}
    (late : w.scopeCancelled shut = true) (unwound : task.unwind setting place w = (w', outcome)) :
    Scheduled setting shut task.part place w w' (.ended outcome)
  | collapse {shut : Bool} {branches : List Task} {queue : List Nat} {failures : List Failure}
    {place : Position} {w w' : World} {outcome : Outcome}
    (late : w.scopeCancelled (shutBelow shut failures) = true)
    (collapsed : Task.collapse setting branches queue place failures w = (w', outcome)) :
    Scheduled setting shut (.block (Task.parts branches) failures) place w w' (.ended outcome)

theorem Scheduled.goes {progress : Progress} (h : Scheduled setting shut part place w w' progress)
    (shaped : part.Shaped setting) : Goes setting shut part place w w' progress := by
  cases h with
  | @start s _ _ _ _ polled =>
    cases token : w.cancelled with
    | false => exact (Task.poll_proceeds (.fresh s) polled).goes shaped token
    | true =>
      rw [s.poll_late place w token] at polled
      cases polled
      exact (s.skip_unwinds rfl).goes (late_of_token token)
  | poll poised live polled => exact (Task.poll_proceeds poised polled).goes shaped live
  | @skip _ s _ _ _ _ late skipped =>
    exact (s.skip_unwinds skipped).goes ((late_iff s.part_observed).2 late)
  | @unwind _ task _ _ _ _ late unwound =>
    exact (task.unwind_unwinds unwound).goes ((late_iff task.part_observed).2 late)
  | collapse late collapsed => exact (Task.collapse_unwinds collapsed).goes late

/-- A call that cancels its own scope, or of which the scope is cancelled, ends as it unwinds. -/
theorem Goes.unwinds_call {call : Call} {progress : Progress}
    (h : Goes setting shut (.calling call) place w w' progress) (late : w'.scopeCancelled shut = true) :
    ∃ outcome, progress = .ended outcome ∧ Unwinds setting (.calling call) place w w' outcome := by
  cases h with
  | call polled takes =>
    rw [World.scopeCancelled, takes.token, ← World.scopeCancelled] at late
    rw [late] at takes
    obtain ⟨failure, unwound, rfl⟩ := takes.unwound polled
    exact ⟨.error failure, rfl, .call unwound⟩

/-- A part ends wherever it stands in its next turn, if its scope is cancelled or becomes so. -/
structure DrainsOnTheSpot (setting : Setting) (shut : Bool) (part : Part) (place : Position)
    (w : World) : Prop where
  goes : part.Late shut w → ∃ w' outcome, Goes setting shut part place w w' (.ended outcome)
  ends : part.Late shut w → ∀ w' progress, Goes setting shut part place w w' progress →
    ∃ outcome, progress = .ended outcome ∧ part.EndsInPlace place w w' outcome
  /-- A call that cancels its own scope while it runs ends in the same way. -/
  running : ∀ call, part = .calling call → ∀ w' progress,
    Goes setting shut part place w w' progress → w'.scopeCancelled shut = true →
      ∃ outcome, progress = .ended outcome ∧ part.EndsInPlace place w w' outcome
  /-- So does one that does this as it starts. -/
  starting : ∀ invocation, part = .unstarted invocation → ¬ part.Late shut w → ∀ w' progress,
    Goes setting shut part place w w' progress → w'.cancelled = true →
      ∃ work entry failure, setting.host.find? invocation.name = some work ∧
        progress = .ended (.error failure) ∧ w'.store = w.store ∧
        w'.trace = w.trace ++ [.started place invocation.name (w.inputs invocation)
          (invocation.timeout.getD setting.timeout), entry] ∧
        (Call.outgoing setting place invocation w
          (work.script (w.called.count invocation.name) (w.inputs invocation))).EndsLate w.clock
            entry failure
  /-- With the call fails what is around it in its scope. -/
  fails : ¬ part.Late shut w → ∀ w' progress, Goes setting shut part place w w' progress →
    w'.cancelled = true → ∃ failure, progress = .ended (.error failure)
  scheduled : ∀ w' progress, Scheduled setting shut part place w w' progress →
    Goes setting shut part place w w' progress

end Part

namespace Workflow

variable {workflow : Workflow} {setting : Setting} {cancellation : Cancellation} {called : List String}

-- Every place of a run at which a part has its next turn, with its scope: the root before each poll, and
-- all that is left below it in the course of one. A block comes up again after each of its branches, so its
-- branches may have ended, may wait or may not have started.
inductive Visits (workflow : Workflow) (setting : Setting) (cancellation : Cancellation)
    (called : List String) : Bool → Part → Position → World → Prop where
  | poll {w : World} {task : Task}
    (reached : workflow.Reached setting cancellation called (.waiting w task))
    (woken : task.woken = true) : Visits workflow setting cancellation called false task.part [] w
  | resume {w : World} {task : Task} {instant : Nat}
    (reached : workflow.Reached setting cancellation called (.waiting w task))
    (asleep : task.woken = false) (next : task.nextInstant = some instant)
    (early : ∀ deadline, cancellation.at? = some deadline → instant < deadline) :
    Visits workflow setting cancellation called false task.part [] { w with clock := instant }
  | cancel {w : World} {task : Task} {instant deadline : Nat}
    (reached : workflow.Reached setting cancellation called (.waiting w task))
    (asleep : task.woken = false) (next : task.nextInstant = some instant)
    (set : cancellation.at? = some deadline) (due : deadline ≤ instant) :
    Visits workflow setting cancellation called false task.part []
      { w with clock := max w.clock deadline, cancelled := true }
  | element {shut : Bool} {index : Nat} {current : Part} {rest : List Part} {place : Position}
    {w : World} (outer : Visits workflow setting cancellation called shut
      (.sequence index (current :: rest)) place w) :
    Visits workflow setting cancellation called shut current (place ++ [index]) w
  | later {shut : Bool} {index : Nat} {current : Part} {rest : List Statement} {place : Position}
    {w mid : World} (outer : Visits workflow setting cancellation called shut
      (.sequence index (current :: Statement.parts rest)) place w)
    (first : Goes setting shut current (place ++ [index]) w mid (.ended (.ok ()))) :
    Visits workflow setting cancellation called shut (.sequence (index + 1) (Statement.parts rest))
      place mid
  | branch {shut : Bool} {before after : List Part} {branch : Part} {failures : List Failure}
    {place : Position} {w : World} (outer : Visits workflow setting cancellation called shut
      (.block (before ++ branch :: after) failures) place w) :
    Visits workflow setting cancellation called (shutBelow shut failures) branch
      (place ++ [before.length]) w
  | branchWaits {shut : Bool} {before after : List Part} {branch : Part} {failures : List Failure}
    {place : Position} {w mid : World} {task : Task}
    (outer : Visits workflow setting cancellation called shut
      (.block (before ++ branch :: after) failures) place w)
    (turn : Goes setting (shutBelow shut failures) branch (place ++ [before.length]) w mid
      (.waiting task)) :
    Visits workflow setting cancellation called shut (.block (before ++ task.part :: after) failures)
      place mid
  | branchOk {shut : Bool} {before after : List Part} {branch : Part} {failures : List Failure}
    {place : Position} {w mid : World} (outer : Visits workflow setting cancellation called shut
      (.block (before ++ branch :: after) failures) place w)
    (turn : Goes setting (shutBelow shut failures) branch (place ++ [before.length]) w mid
      (.ended (.ok ()))) :
    Visits workflow setting cancellation called shut (.block (before ++ .ended :: after) failures)
      place mid
  | branchFails {shut : Bool} {before after : List Part} {branch : Part} {failures : List Failure}
    {place : Position} {w mid : World} {failure : Failure} {remaining : Nat}
    (outer : Visits workflow setting cancellation called shut
      (.block (before ++ branch :: after) failures) place w)
    (turn : Goes setting (shutBelow shut failures) branch (place ++ [before.length]) w mid
      (.ended (.error failure))) :
    Visits workflow setting cancellation called shut
      (.block (before ++ .ended :: after) (failures ++ [failure])) place
      (observe setting.mode place failures remaining failure mid)

/-- The turns that make up a turn of a visited sequence are turns of visited parts. -/
theorem Visits.of_sequence {shut : Bool} {index : Nat} {current : Part} {rest : List Statement}
    {place : Position} {w w' : World} {progress : Progress}
    (visits : workflow.Visits setting cancellation called shut
      (.sequence index (current :: Statement.parts rest)) place w)
    (goes : Goes setting shut (.sequence index (current :: Statement.parts rest)) place w w' progress) :
    workflow.Visits setting cancellation called shut current (place ++ [index]) w ∧
    ((∃ task, Goes setting shut current (place ++ [index]) w w' (.waiting task)) ∨
      (∃ failure, Goes setting shut current (place ++ [index]) w w' (.ended (.error failure))) ∨
      ∃ mid, Goes setting shut current (place ++ [index]) w mid (.ended (.ok ())) ∧
        workflow.Visits setting cancellation called shut
          (.sequence (index + 1) (Statement.parts rest)) place mid ∧
        Goes setting shut (.sequence (index + 1) (Statement.parts rest)) place mid w' progress) := by
  refine ⟨.element visits, ?_⟩
  generalize eq : Statement.parts rest = parts at goes visits
  cases goes with
  | wait first => exact .inl ⟨_, first⟩
  | stop first => exact .inr (.inl ⟨_, first⟩)
  | next first others => exact .inr (.inr ⟨_, first, .later visits first, others⟩)

/-- The turns that make up a turn of a visited block are turns of visited parts: if any is left, a turn
of a branch, and then one of the block as the branch leaves it. -/
theorem Visits.of_block {shut : Bool} {branches : List Part} {failures : List Failure}
    {place : Position} {w w' : World} {progress : Progress}
    (visits : workflow.Visits setting cancellation called shut (.block branches failures) place w)
    (goes : Goes setting shut (.block branches failures) place w w' progress) :
    w' = w ∨ ∃ before branch after mid turn last left observed,
      branches = before ++ branch :: after ∧
      workflow.Visits setting cancellation called (shutBelow shut failures) branch
        (place ++ [before.length]) w ∧
      Goes setting (shutBelow shut failures) branch (place ++ [before.length]) w mid turn ∧
      workflow.Visits setting cancellation called shut (.block (before ++ left :: after) observed)
        place last ∧
      Goes setting shut (.block (before ++ left :: after) observed) place last w' progress := by
  cases goes with
  | rest | drained => exact .inl rfl
  | branchWaits first others =>
    exact .inr ⟨_, _, _, _, _, _, _, _, rfl, .branch visits, first, .branchWaits visits first, others⟩
  | branchOk first others =>
    exact .inr ⟨_, _, _, _, _, _, _, _, rfl, .branch visits, first, .branchOk visits first, others⟩
  | branchFails first others =>
    exact .inr ⟨_, _, _, _, _, _, _, _, rfl, .branch visits, first, .branchFails visits first, others⟩

/-- A root that waits does so under a live token, unless the run is still to start. -/
theorem reached_live {w : World} {task : Task}
    (reached : workflow.Reached setting cancellation called (.waiting w task)) :
    task.part.Shaped setting ∧ (w.cancelled = true → task = .fresh workflow.root) := by
  have idle : (workflow.world called cancellation.before).InFlight 0 := rfl
  generalize eq : Machine.waiting w task = state at reached
  induction reached generalizing w task with
  | refl =>
    cases eq
    exact ⟨workflow.root.shaped setting, fun _ => rfl⟩
  | tail before last ih =>
    cases last with
    | next w task =>
      obtain ⟨shaped, unstarted⟩ := ih rfl
      cases live : w.cancelled with
      | true =>
        have step : Machine.next setting cancellation.at? w (.fresh workflow.root) = _ :=
          Machine.next_of_woken rfl
        rw [workflow.root.poll_late [] w live] at step
        rw [unstarted live, step] at eq
        cases eq
      | false =>
        obtain ⟨instant, ready, goesOn, polled, -⟩ := (Machine.reached_sound idle before).onTime.next eq.symm
        have goes := (goesOn.proceeds polled).goes shaped live
        refine ⟨goes.shaped shaped rfl, fun late => ?_⟩
        cases late.symm.trans (goes.stays_live shaped task.part_observed live nofun)

theorem Visits.shaped {shut : Bool} {part : Part} {place : Position} {w : World}
    (visits : workflow.Visits setting cancellation called shut part place w) : part.Shaped setting := by
  induction visits with
  | poll reached | resume reached | cancel reached => exact (reached_live reached).1
  | element _ ih => exact ih.current.1
  | later _ _ _ => exact .rest setting _ _
  | branch _ ih => exact ih.branch.1
  | @branchWaits _ _ _ _ failures _ _ _ task _ turn ih =>
    exact ih.replace (turn.shaped ih.branch.1 rfl) task.part_observed failures
  | branchOk _ _ ih => exact ih.ends _
  | branchFails _ _ ih => exact ih.ends _

/-- A cancelled scope drains on the spot, in every state of a run. -/
theorem run_drains_on_the_spot {shut : Bool} {part : Part} {place : Position} {w : World}
    (visits : workflow.Visits setting cancellation called shut part place w) :
    part.DrainsOnTheSpot setting shut place w := by
  have shaped := visits.shaped
  constructor
  case goes =>
    intro late
    obtain ⟨w', outcome, unwinds⟩ := shaped.unwinds place w
    exact ⟨w', outcome, unwinds.goes late⟩
  case ends =>
    intro late w' progress goes
    obtain ⟨outcome, ended, unwinds⟩ := goes.unwinds shaped late
    exact ⟨outcome, ended, unwinds.endsInPlace shaped⟩
  case running =>
    rintro call rfl w' progress goes late
    obtain ⟨outcome, ended, unwinds⟩ := goes.unwinds_call late
    exact ⟨outcome, ended, unwinds.endsInPlace shaped⟩
  case starting =>
    rintro invocation rfl live w' progress goes token
    cases goes with
    | skip late => exact absurd ((Part.late_iff rfl).2 late) live
    | start free started =>
      obtain ⟨work, entry, failure, found, rfl, store, told, ends⟩ :=
        Call.start_endsLate started (Bool.or_eq_false_iff.1 free).2 token
      exact ⟨work, entry, failure, found, rfl, store, told, ends⟩
  case fails => exact fun live w' progress goes token => goes.fails shaped live token
  case scheduled => exact fun w' progress scheduled => scheduled.goes shaped

/-- A branch that is to wait in its first call, one that fails at once, and one that does not start. -/
def trio : Workflow :=
  .ofTree .empty (.parallel [.sequence [.invocation { name := "slow" }, .invocation { name := "last" }],
    .invocation { name := "missing" }, .invocation { name := "last" }])

theorem trio_drains_on_the_spot : ∃ (call : Call) (w : World) (failure : Failure),
    let part := Part.block [.sequence 0 [.calling call, .unstarted { name := "last" }], .ended,
      .unstarted { name := "last" }] [failure]
    trio.Visits .knowingSlow {} [] false part [] w ∧ part.Late false w ∧ w.cancelled = false ∧
      (∃ w' outcome, Goes .knowingSlow false part [] w w' (.ended outcome)) ∧
      ∀ w' progress, Goes .knowingSlow false part [] w w' progress →
        ∃ failure, progress = .ended (.error failure) ∧ w'.store = w.store ∧
          ∃ later, w'.trace = w.trace ++ later ∧
            later.endings = {.cancelled [0, 0] "slow" true} := by
  let call : Call :=
    { place := [0, 0], name := "slow", result := none, timeout := defaultTimeout, echo := "slow()"
      wake := ⟨5, 0⟩, rest := [], expiry := none }
  let first : Part :=
    (Statement.sequence [.invocation { name := "slow" }, .invocation { name := "last" }]).part
  let left : Part := .sequence 0 [.calling call, .unstarted { name := "last" }]
  let others : List Part := [.unstarted { name := "missing" }, .unstarted { name := "last" }]
  let mid := (Call.start .knowingSlow [0, 0] { name := "slow" } (trio.world [] false)).1
  have waits : Goes .knowingSlow (shutBelow false []) first [0] (trio.world [] false) mid
      (.waiting (.sequence (.calling call) 0 [.invocation { name := "last" }])) := .wait (.start rfl rfl)
  have fails : Goes .knowingSlow (shutBelow false []) (.unstarted { name := "missing" }) [1] mid
      (Call.start .knowingSlow [1] { name := "missing" } mid).1
      (.ended (.error (.invocation "missing" (.notRegistered "missing")))) := .start rfl rfl
  have started : trio.Visits .knowingSlow {} [] false (.block ([] ++ first :: others) []) []
      (trio.world [] false) := .poll .refl rfl
  have begun : trio.Visits .knowingSlow {} [] false
      (.block ([left] ++ .unstarted { name := "missing" } :: [.unstarted { name := "last" }]) []) [] mid :=
    .branchWaits started waits
  have visits : trio.Visits .knowingSlow {} [] false
      (.block [left, .ended, .unstarted { name := "last" }]
        [.invocation "missing" (.notRegistered "missing")]) []
      (observe .firstObserved [] [] 2 (.invocation "missing" (.notRegistered "missing"))
        (Call.start .knowingSlow [1] { name := "missing" } mid).1) := begun.branchFails fails
  have drains := run_drains_on_the_spot visits
  refine ⟨call, _, _, visits, rfl, rfl, drains.goes rfl, fun w' progress goes => ?_⟩
  obtain ⟨outcome, rfl, ends⟩ := drains.ends rfl w' progress goes
  obtain ⟨later, told, closes⟩ := ends.closes
  cases outcome with
  | ok => exact absurd (ends.ok_iff.1 rfl).2.2 (List.cons_ne_nil _ _)
  | error failure =>
    refine ⟨failure, rfl, ends.settles.still.store, later, told, ?_⟩
    -- The one call in flight sleeps until 5, so there is nothing that it could end with by itself.
    have flying : (Part.block [left, .ended, .unstarted { name := "last" }]
        [.invocation "missing" (.notRegistered "missing")]).calls = call ::ₘ 0 := rfl
    rw [flying] at closes
    obtain ⟨entry, rest, ⟨failure, late⟩, none, only⟩ := Multiset.rel_cons_left.1 closes
    rw [only, Multiset.rel_zero_left.1 none]
    cases late with
    | failed answers | dropped answers => exact absurd answers.1 (by decide)
    | timedOut _ expires => cases expires
    | abandoned => rfl

end Workflow

end FlowTree

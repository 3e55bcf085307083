import FlowTree.Proofs.FailFast
import FlowTree.Proofs.Run.Order
import FlowTree.Proofs.Run.Waiting
import FlowTree.Proofs.Tally

/-! Sequences are barriers. An element of a sequence starts only after everything in the elements before
it has completed, however deep it stands: a block goes on to its next element only when the current one
has gone well, and what has gone well is done in all its parts. -/

set_option autoImplicit false

namespace FlowTree

namespace Trace

def Completes (trace : Trace) (place : Position) : Prop := ∃ name, (place, name) ∈ trace.completed

/-- A condition on what has happened and on the place of the call holds when an invocation starts. -/
def Gated (gate : Trace → Position → Prop) (trace : Trace) : Prop :=
  ∀ (before : Trace) place name inputs timeout after,
    trace = before ++ .started place name inputs timeout :: after → gate before place

def Barred (root : Statement) (trace : Trace) : Prop :=
  ∀ (before : Trace) place name inputs timeout after,
    trace = before ++ .started place name inputs timeout :: after → root.Clear before.Completes place

theorem Completes.append {trace : Trace} {place : Position} (completes : trace.Completes place)
    (later : Trace) : (trace ++ later).Completes place := by
  obtain ⟨name, mem⟩ := completes
  exact ⟨name, completed_append trace later ▸ Multiset.mem_add.2 (.inl mem)⟩

namespace Gated

variable {gate : Trace → Position → Prop} {trace : Trace}

theorem concat (gated : trace.Gated gate) {happening : Happening}
    (passes : ∀ place name inputs timeout, happening = .started place name inputs timeout →
      gate trace place) : Gated gate (trace ++ [happening]) := by
  intro before place name inputs timeout after split
  rcases split_concat split with ⟨rfl, eq, -⟩ | ⟨rest, -, eq⟩
  · exact passes place name inputs timeout eq.symm
  · exact gated before place name inputs timeout rest eq

theorem append (gated : trace.Gated gate) {later : Trace}
    (quiet : ∀ h ∈ later, ∀ place name inputs timeout, h ≠ .started place name inputs timeout) :
    Gated gate (trace ++ later) := by
  induction later generalizing trace with
  | nil => rwa [List.append_nil]
  | cons first rest ih =>
    rw [List.append_cons]
    refine ih (gated.concat ?_) fun h mem => quiet h (List.mem_cons_of_mem _ mem)
    intro place name inputs timeout eq
    exact absurd eq (quiet first List.mem_cons_self _ _ _ _)

end Gated

theorem Barred.concat {root : Statement} {trace : Trace} (barred : trace.Barred root)
    {happening : Happening}
    (clear : ∀ place name inputs timeout, happening = .started place name inputs timeout →
      root.Clear trace.Completes place) : (trace ++ [happening]).Barred root :=
  Gated.concat barred clear

end Trace

theorem World.Onward.completes {w w' : World} (onward : w.Onward w') (place : Position)
    (completes : w.trace.Completes place) : w'.trace.Completes place := by
  obtain ⟨later, grown, -⟩ := onward.moments
  rw [World.trace_append grown]
  exact completes.append _

theorem World.Settles.gated {gate : Trace → Position → Prop} {w w' : World} (settles : w.Settles w')
    (gated : w.trace.Gated gate) : w'.trace.Gated gate := by
  obtain ⟨later, grown, drains⟩ := settles.drains
  rw [World.trace_append grown]
  refine gated.append ?_
  rintro h mem place name inputs timeout rfl
  obtain ⟨m, here, eq⟩ := List.mem_map.1 mem
  have silent := (drains m here).2
  rw [eq] at silent
  cases silent with
  | noted notes => cases notes

theorem World.Settles.barred {root : Statement} {w w' : World} (settles : w.Settles w')
    (barred : w.trace.Barred root) : w'.trace.Barred root :=
  settles.gated barred

def Progress.Leaves (root : Statement) (done : Position → Prop) (place : Position) :
    Progress → Prop
  | .waiting task => Part.Left root done place task.part
  | .ended (.ok ()) => root.Done done place
  | .ended (.error _) => True

namespace Call

variable {root : Statement} {setting : Setting} {call : Call} {w w' : World} {state : Call ⊕ Outcome}
  {here : Invocation}

theorem Lands.leaves (lands : call.Lands w w' state)
    (at_place : root.at? call.place = some (.invocation here)) (barred : w.trace.Barred root) :
    w'.trace.Barred root ∧ (Progress.ofCall state).Leaves root w'.trace.Completes call.place := by
  cases lands with
  | asleep same live => exact ⟨barred, .calling at_place same.place⟩
  | completed output live =>
    have grown : (call.complete w output).trace =
        w.trace ++ [.completed call.place call.name call.result output] := by
      rw [trace_complete]
    rw [grown]
    constructor
    · refine barred.concat fun _ _ _ _ eq => ?_
      cases eq
    · refine .of_invocation at_place ⟨call.name, ?_⟩
      rw [Trace.completed_append]
      exact Multiset.mem_add.2 (.inr (Multiset.mem_singleton_self _))
  | failed fails => exact ⟨(World.Settles.of_emit fails.drains).barred barred, trivial⟩

theorem start_leaves {place : Position} {invocation : Invocation}
    (started : start setting place invocation w = (w', state))
    (at_place : root.at? place = some (.invocation here))
    (clear : root.Clear w.trace.Completes place) (barred : w.trace.Barred root) :
    w'.trace.Barred root ∧ (Progress.ofCall state).Leaves root w'.trace.Completes place := by
  obtain ⟨called, mid, stirs, lands⟩ := start_lands started
  have grown : mid.trace = w.trace ++ [.started place invocation.name (w.inputs invocation)
      (invocation.timeout.getD setting.timeout)] :=
    (congrArg Trace.ofMoments stirs.moments).trans (w.trace_emit _)
  refine lands.leaves at_place ?_
  rw [grown]
  refine barred.concat fun _ _ _ _ eq => ?_
  cases eq
  exact clear

theorem resume_leaves (resumed : call.resume setting w = (w', state))
    (at_place : root.at? call.place = some (.invocation here)) (barred : w.trace.Barred root) :
    w'.trace.Barred root ∧ (Progress.ofCall state).Leaves root w'.trace.Completes call.place := by
  obtain ⟨mid, stirs, lands⟩ := resume_lands resumed
  have same : mid.trace = w.trace := congrArg Trace.ofMoments stirs.moments
  exact lands.leaves at_place (same ▸ barred)

end Call

namespace Part

variable {root : Statement} {setting : Setting} {part : Part} {place : Position} {w w' : World}

-- What has started did so after all that is before it; what has gone well is done, so that the next
-- element may start.
theorem Proceeds.leaves {progress : Progress} (h : Proceeds setting part place w w' progress)
    (left : Left root w.trace.Completes place part) (clear : root.Clear w.trace.Completes place)
    (barred : w.trace.Barred root) :
    w'.trace.Barred root ∧ progress.Leaves root w'.trace.Completes place := by
  induction h with
  | ended => exact ⟨barred, left.done_of_ended⟩
  | skip => exact ⟨(World.Settles.of_emit (.skipped _ _)).barred barred, trivial⟩
  | start live started =>
    cases left with
    | unstarted at_place => exact Call.start_leaves started at_place clear barred
  | resume resumed =>
    cases left with
    | calling at_place here =>
      subst here
      exact Call.resume_leaves resumed at_place barred
  | finished => exact ⟨barred, left.done_of_finished⟩
  | wait first ih =>
    obtain ⟨barred, gone⟩ := ih left.first (left.clear_first clear) barred
    exact ⟨barred, left.wait first.onward.completes gone⟩
  | next first _ ih later =>
    obtain ⟨barred, gone⟩ := ih left.first (left.clear_first clear) barred
    exact later (left.next first.onward.completes gone) (clear.mono first.onward.completes) barred
  | stop _ ih => exact ⟨(ih left.first (left.clear_first clear) barred).1, trivial⟩
  | @rest tasks place w busy =>
    refine ⟨barred, ?_⟩
    unfold Progress.ofBranches
    split
    · next all => exact left.done_of_drained (Task.parts_ended all)
    · exact left
  | branchWaits first _ ih later =>
    obtain ⟨barred, gone⟩ := ih left.inside (left.clear_branch clear) barred
    exact later (left.replace first.onward.completes gone) (clear.mono first.onward.completes) barred
  | branchOk first _ ih later =>
    obtain ⟨barred, gone⟩ := ih left.inside (left.clear_branch clear) barred
    exact later (left.replace first.onward.completes (.ended gone))
      (clear.mono first.onward.completes) barred
  | branchFails _ others ih =>
    have barred := (ih left.inside (left.clear_branch clear) barred).1
    obtain ⟨last, rfl⟩ := others.fails_of_failure
    refine ⟨others.settled.barred ?_, trivial⟩
    exact (World.Settles.of_observe _ _ _ _ _ _).barred barred

theorem Finishes.barred {outcome : Outcome} (h : Finishes setting part w w' outcome)
    (left : Left root w.trace.Completes [] part) (barred : w.trace.Barred root) :
    w'.trace.Barred root := by
  have clear (done : Position → Prop) : root.Clear done [] := by
    intro q call before
    generalize eq : ([] : Position) = here at before
    cases before with
    | intro => simp at eq
  induction h with
  | ended turn => exact (turn.leaves left (clear _) barred).1
  | waits turn _ ih =>
    obtain ⟨barred, gone⟩ := turn.leaves left (clear _) barred
    exact ih gone barred
  | cancelled busy unwound => exact unwound.settled.barred barred

end Part

namespace Statement

/-- An invocation stands in an earlier element of a sequence than another one. -/
inductive Precedes (root : Statement) (early late : Invocation) : Prop where
  | intro {place : Position} {elements : List Statement} {i j : Nat} {first second : Statement}
    (at_place : root.at? place = some (.sequence elements)) (earlier : i < j)
    (at_i : elements[i]? = some first) (at_j : elements[j]? = some second)
    (inFirst : early ∈ first.invocations) (inSecond : late ∈ second.invocations)

variable {root : Statement} {early late : Invocation}

theorem Precedes.places (precedes : root.Precedes early late) :
    ∃ p q, root.Before p q ∧ root.invocation? p = some early ∧ root.invocation? q = some late := by
  cases precedes with
  | @intro place elements i j first second at_place earlier at_i at_j inFirst inSecond =>
    obtain ⟨p, found⟩ := exists_place inFirst
    obtain ⟨q, found'⟩ := exists_place inSecond
    have before : root.Before (place ++ i :: p) (place ++ j :: q) := .intro at_place earlier
    refine ⟨_, _, before, ?_, ?_⟩
    · rw [List.append_cons, invocation?_append ((at?_element at_place i).trans at_i)]
      exact found
    · rw [List.append_cons, invocation?_append ((at?_element at_place j).trans at_j)]
      exact found'

theorem place_unique (distinct : (root.invocations.map (·.name)).Nodup) {p q : Position}
    {name : String} (left : (p, name) ∈ root.callIds) (right : (q, name) ∈ root.callIds) : p = q := by
  have apart : (root.callIds.map (·.2)).Nodup := by
    rw [root.names_callIds]
    exact Multiset.coe_nodup.2 distinct
  exact congrArg Prod.fst (Multiset.inj_on_of_nodup_map apart _ left _ right rfl)

end Statement

theorem Event.completed_of_mem {id : String} {trace : Trace} {place : Position} {name : String}
    (mem : (place, name) ∈ trace.completed) :
    ∃ output, .invocationCompleted id name output ∈ ofTrace id trace := by
  obtain ⟨h, here, ends⟩ := List.mem_filterMap.1 (Multiset.mem_coe.1 mem)
  cases h with
  | completed p n result output =>
    cases ends
    exact ⟨output, List.mem_filterMap.2 ⟨_, here, rfl⟩⟩
  | _ => cases ends

namespace Workflow

variable (workflow : Workflow) (setting : Setting) (cancellation : Cancellation)
  (called : List String)

theorem run_barred : (workflow.run setting cancellation called).trace.Barred workflow.root := by
  obtain ⟨w, outcome, eq, finishes⟩ := workflow.run_finishes setting cancellation called
  have start : (workflow.world called cancellation.before).trace.Barred workflow.root := by
    intro before place name inputs timeout after split
    rcases before with _ | ⟨_, _ | _⟩ <;> cases split
  have all : workflow.root.at? [] = some workflow.root := by cases workflow.root <;> rfl
  rw [eq, close_trace]
  refine (finishes.barred (Statement.part_left all _) start).concat fun _ _ _ _ ends => ?_
  cases outcome <;> cases ends

theorem run_known {trace later : Trace}
    (split : (workflow.run setting cancellation called).trace = trace ++ later) :
    trace.opened ≤ workflow.root.callIds ∧ trace.completed ≤ workflow.root.callIds := by
  obtain ⟨w, outcome, eq, reaches⟩ := workflow.run_reaches setting cancellation called
  rw [eq] at split
  have opened : (close w outcome).trace.opened = w.trace.opened :=
    congrArg Multiset.ofList (close_filterMap (fun o => (closing_silent o).1) w outcome)
  have closed : (close w outcome).trace.closed = w.trace.closed :=
    congrArg Multiset.ofList (close_filterMap (fun o => (closing_silent o).2.1) w outcome)
  rw [split, Trace.opened_append] at opened
  rw [split, Trace.closed_append, trace.closed_eq, ← reaches.balanced, add_assoc] at closed
  exact ⟨(opened ▸ Multiset.le_add_right _ _).trans reaches.opened,
    (closed ▸ Multiset.le_add_right _ _).trans reaches.opened⟩

/-- Before an invocation starts, all that precedes it in a sequence has completed. -/
theorem run_in_order (id : String)
    (distinct : (workflow.root.invocations.map (·.name)).Nodup) {early late : Invocation}
    (precedes : workflow.root.Precedes early late) {before after : List Event} {inputs : List String}
    (split : (workflow.run setting cancellation called).events id =
      before ++ .invocationStarted id late.name inputs :: after) :
    ∃ output, .invocationCompleted id early.name output ∈ before := by
  obtain ⟨p, q, inOrder, first, second⟩ := precedes.places
  rw [workflow.run_events setting cancellation called id] at split
  obtain ⟨earlier, h, later, cut, rfl, tells⟩ := Event.ofTrace_split split
  have completed := (workflow.run_known setting cancellation called cut).2
  have opened :=
    (workflow.run_known setting cancellation called (cut.trans (List.append_cons _ _ _))).1
  cases h with
  | started place name inputs timeout =>
    cases tells
    -- The call that starts is the one at the place of the invocation, as no other has its name.
    have started : (place, late.name) ∈ workflow.root.callIds := by
      refine Multiset.mem_of_le opened ?_
      rw [Trace.opened_append]
      exact Multiset.mem_add.2 (.inr (Multiset.mem_singleton_self _))
    obtain rfl := Statement.place_unique distinct started (Statement.mem_callIds second)
    have clear := workflow.run_barred setting cancellation called _ _ _ _ _ _ cut
    obtain ⟨name, done⟩ := clear p early inOrder first
    obtain ⟨call, found, rfl⟩ :=
      workflow.root.invocation?_of_mem_callIds (Multiset.mem_of_le completed done)
    cases found.symm.trans first
    exact Event.completed_of_mem done
  | _ => cases tells

def stages : Workflow :=
  .ofTree .empty (.sequence [
    .parallel [.invocation { name := "quick" }, .invocation { name := "slow" }],
    .invocation { name := "last" }])

def inStages : Setting where
  host := ⟨[("quick", .scripted [[]]), ("slow", .scripted [[.delay 5]]), ("last", .scripted [[]])], false⟩

theorem stages_in_order : ∃ before after output,
    (stages.run inStages {} []).events "stages" =
      before ++ .invocationStarted "stages" "last" [] :: after ∧
    .invocationCompleted "stages" "slow" output ∈ before := by
  let first : List Event := [.workflowStarted "stages" "workflow",
    .invocationStarted "stages" "quick" [], .invocationCompleted "stages" "quick" "",
    .invocationStarted "stages" "slow" [], .invocationCompleted "stages" "slow" ""]
  let last : List Event := [.invocationCompleted "stages" "last" "", .workflowCompleted "stages"]
  obtain ⟨w, ended, told⟩ : ∃ w,
      Machine.run inStages none stages.root (stages.world [] false) = (w, .ok ()) ∧
      (close w (.ok ())).events "stages" =
        first ++ .invocationStarted "stages" "last" [] :: last :=
    ⟨_, Machine.run_of_after 3 rfl, by decide⟩
  have ran : stages.run inStages {} [] = close w (.ok ()) := by rw [run, ended]
  have inOrder : stages.root.at? [] = some (.sequence [
      .parallel [.invocation { name := "quick" }, .invocation { name := "slow" }],
      .invocation { name := "last" }]) := rfl
  have precedes : stages.root.Precedes { name := "slow" } { name := "last" } :=
    .intro inOrder Nat.zero_lt_one rfl rfl (by decide) (by decide)
  have split := (congrArg (fun run => run.events "stages") ran).trans told
  obtain ⟨output, mem⟩ := run_in_order stages inStages {} [] "stages" (by decide) precedes split
  exact ⟨_, _, output, split, mem⟩

end Workflow

end FlowTree

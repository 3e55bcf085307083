import FlowTree.Proofs.Run.Balance

/-! What a block hears of its branches until it ends. The loop of a block is left only when nothing is
left of any branch. Until then branches take turns, in a scope that is live or cancelled, and the end
of each is reported once. When the block ends, none of its calls is in flight. -/

set_option autoImplicit false

namespace FlowTree

/-- The calls in flight are those that the trace tells of as gone out and not ended. -/
def World.InFlight (w : World) (calls : Multiset Call) : Prop :=
  w.trace.opened = w.trace.closed + calls.map Call.id

namespace Part

variable {setting : Setting} {place : Position} {w w' : World}

/-- A turn of a branch, in a live scope or in a cancelled one. -/
inductive TakesTurn (setting : Setting) (branch : Part) (place : Position) (w w' : World) :
    Progress → Prop where
  | live {progress : Progress} (turn : Proceeds setting branch place w w' progress) :
    TakesTurn setting branch place w w' progress
  | late {outcome : Outcome} (unwound : Unwinds setting branch place w w' outcome) :
    TakesTurn setting branch place w w' (.ended outcome)

/-- The loop of a block over its branches and the failures so far, with the reports that it hears: how
the branch with an index has ended. -/
inductive Loops (setting : Setting) (place : Position) :
    List Part → List Failure → World → List (Nat × Outcome) → World → Prop where
  | left {branches : List Part} {failures : List Failure} {w : World}
    (all : ∀ b ∈ branches, b = .ended) : Loops setting place branches failures w [] w
  | waits {branches : List Part} {branch : Part} {i : Nat} {task : Task} {failures : List Failure}
    {reports : List (Nat × Outcome)} {w mid w' : World} (at_i : branches[i]? = some branch)
    (turn : TakesTurn setting branch (place ++ [i]) w mid (.waiting task))
    (later : Loops setting place (branches.set i task.part) failures mid reports w') :
    Loops setting place branches failures w reports w'
  | well {branches : List Part} {branch : Part} {i : Nat} {failures : List Failure}
    {reports : List (Nat × Outcome)} {w mid w' : World} (at_i : branches[i]? = some branch)
    (active : branch ≠ .ended)
    (turn : TakesTurn setting branch (place ++ [i]) w mid (.ended (.ok ())))
    (later : Loops setting place (branches.set i .ended) failures mid reports w') :
    Loops setting place branches failures w ((i, .ok ()) :: reports) w'
  | fails {branches : List Part} {branch : Part} {i remaining : Nat} {failure : Failure}
    {failures : List Failure} {reports : List (Nat × Outcome)} {w mid w' : World}
    (at_i : branches[i]? = some branch) (active : branch ≠ .ended)
    (turn : TakesTurn setting branch (place ++ [i]) w mid (.ended (.error failure)))
    (later : Loops setting place (branches.set i .ended) (failures ++ [failure])
      (observe setting.mode place failures remaining failure mid) reports w') :
    Loops setting place branches failures w ((i, .error failure) :: reports) w'

def Open (branches : List Part) (i : Nat) : Prop := ∃ b, branches[i]? = some b ∧ b ≠ .ended

def failed (reports : List (Nat × Outcome)) : List Failure :=
  reports.filterMap fun
    | (_, .error failure) => some failure
    | (_, .ok ()) => none

theorem open_set {branches : List Part} {branch new : Part} {i : Nat}
    (at_i : branches[i]? = some branch) (active : branch ≠ .ended) (left : new ≠ .ended) (j : Nat) :
    Open (branches.set i new) j ↔ Open branches j := by
  unfold Open
  by_cases same : i = j
  · subst same
    rw [List.getElem?_set_self (List.getElem?_eq_some_iff.1 at_i).1, at_i]
    exact iff_of_true ⟨new, rfl, left⟩ ⟨branch, rfl, active⟩
  · rw [List.getElem?_set_ne same]

theorem open_set_ended (branches : List Part) (i j : Nat) :
    Open (branches.set i .ended) j ↔ Open branches j ∧ i ≠ j := by
  unfold Open
  by_cases same : i = j
  · subst same
    refine iff_of_false ?_ fun other => other.2 rfl
    rintro ⟨b, at_i, active⟩
    rw [List.getElem?_set_self'] at at_i
    cases old : branches[i]? <;> rw [old] at at_i <;> cases at_i
    exact active rfl
  · rw [List.getElem?_set_ne same]
    exact ⟨fun found => ⟨found, same⟩, And.left⟩

theorem TakesTurn.active {branch : Part} {task : Task}
    (turn : TakesTurn setting branch place w w' (.waiting task)) :
    branch ≠ .ended ∧ task.part ≠ .ended := by
  cases turn with
  | live turn =>
    constructor
    · rintro rfl
      cases turn
    · intro gone
      have begun := turn.begun
      rw [gone] at begun
      cases begun

theorem Loops.once {branches : List Part} {failures : List Failure} {reports : List (Nat × Outcome)}
    (loops : Loops setting place branches failures w reports w') :
    (reports.map (·.1)).Nodup ∧ ∀ i, i ∈ reports.map (·.1) ↔ Open branches i := by
  -- What a report removes from the open branches is the one that reports.
  have reported {branches : List Part} {branch : Part} {reports : List (Nat × Outcome)} {i : Nat}
      (at_i : branches[i]? = some branch) (active : branch ≠ .ended) (outcome : Outcome)
      (once : (reports.map (·.1)).Nodup ∧
        ∀ j, j ∈ reports.map (·.1) ↔ Open (branches.set i .ended) j) :
      (((i, outcome) :: reports).map (·.1)).Nodup ∧
        ∀ j, j ∈ ((i, outcome) :: reports).map (·.1) ↔ Open branches j := by
    obtain ⟨apart, covers⟩ := once
    rw [List.map_cons, List.nodup_cons]
    refine ⟨⟨fun again => ?_, apart⟩, fun j => ?_⟩
    · exact ((open_set_ended branches i i).1 ((covers i).1 again)).2 rfl
    · rw [List.mem_cons, covers, open_set_ended]
      by_cases same : j = i
      · subst same
        exact iff_of_true (.inl rfl) ⟨branch, at_i, active⟩
      · simp [same, Ne.symm same]
  induction loops with
  | left all =>
    refine ⟨List.nodup_nil, fun i => iff_of_false List.not_mem_nil ?_⟩
    rintro ⟨b, at_i, active⟩
    exact active (all b (List.mem_of_getElem? at_i))
  | waits at_i turn _ ih =>
    refine ⟨ih.1, fun j => (ih.2 j).trans ?_⟩
    exact open_set at_i turn.active.1 turn.active.2 j
  | well at_i active _ _ ih => exact reported at_i active _ ih
  | fails at_i active _ _ ih => exact reported at_i active _ ih

theorem Unwinds.loops {part : Part} {outcome : Outcome}
    (h : Unwinds setting part place w w' outcome) :
    ∀ branches failures, part = .block branches failures → ∃ reports,
      Loops setting place branches failures w reports w' ∧
        outcome = setting.mode.settle (failures ++ failed reports) := by
  induction h with
  | ended | skip | call | finished | next | stop => nofun
  | drained all =>
    rintro branches failures ⟨⟩
    exact ⟨[], .left all, by rw [failed, List.filterMap_nil, List.append_nil]⟩
  | @branchOk before after branch failures place w mid w' outcome fresh first others _ ih =>
    rintro _ _ ⟨⟩
    obtain ⟨reports, loops, settled⟩ := ih _ _ rfl
    by_cases gone : branch = .ended
    · subst gone
      cases first
      exact ⟨reports, loops, settled⟩
    · rw [← set_middle before branch after] at loops
      exact ⟨_, .well (getElem?_middle before branch after) gone (.late first) loops, settled⟩
  | @branchFails before after branch failures place w mid w' outcome failure remaining fresh first
      others _ ih =>
    rintro _ _ ⟨⟩
    obtain ⟨reports, loops, settled⟩ := ih _ _ rfl
    have active : branch ≠ .ended := by
      rintro rfl
      cases first
    rw [← set_middle before branch after] at loops
    refine ⟨_, .fails (getElem?_middle before branch after) active (.late first) loops, ?_⟩
    rw [settled, List.append_assoc]
    rfl

theorem Proceeds.loops {part : Part} {progress : Progress}
    (h : Proceeds setting part place w w' progress) :
    ∀ branches outcome, part = .block branches [] → progress = .ended outcome → ∃ reports,
      Loops setting place branches [] w reports w' ∧
        outcome = setting.mode.settle (failed reports) := by
  induction h with
  | ended | skip | start | resume | finished | wait | next | stop => nofun
  | @rest tasks queue handedBack place w begun =>
    rintro branches outcome ⟨⟩ ended
    unfold Progress.ofBranches at ended
    split at ended
    · next all =>
      cases ended
      exact ⟨[], .left (Task.parts_ended all), rfl⟩
    · cases ended
  | @branchWaits before after branch place w mid w' progress task first others _ ih =>
    rintro _ outcome ⟨⟩ ended
    obtain ⟨reports, loops, settled⟩ := ih _ outcome rfl ended
    rw [← set_middle before branch after] at loops
    exact ⟨reports, .waits (getElem?_middle before branch after) (.live first) loops, settled⟩
  | @branchOk before after branch place w mid w' progress first others _ ih =>
    rintro _ outcome ⟨⟩ ended
    obtain ⟨reports, loops, settled⟩ := ih _ outcome rfl ended
    by_cases gone : branch = .ended
    · subst gone
      cases first
      exact ⟨reports, loops, settled⟩
    · rw [← set_middle before branch after] at loops
      exact ⟨_, .well (getElem?_middle before branch after) gone (.live first) loops, settled⟩
  | @branchFails before after branch place w mid w' outcome failure remaining first others _ =>
    rintro _ _ ⟨⟩ ⟨⟩
    obtain ⟨reports, loops, settled⟩ := others.loops _ _ rfl
    have active : branch ≠ .ended := by
      rintro rfl
      cases first
    rw [← set_middle before branch after] at loops
    exact ⟨_, .fails (getElem?_middle before branch after) active (.live first) loops, settled⟩

-- The calls in flight are those of a part and others; when the part has ended, the others are left.
theorem Unwinds.silent {part : Part} {outcome : Outcome}
    (h : Unwinds setting part place w w' outcome) {others : Multiset Call}
    (inFlight : w.InFlight (part.calls + others)) : w'.InFlight others := by
  have drains : Phase.Through (Flight.Move setting) .drain _ _ := h.drains 0 others
  exact drains.keeps (motive := Flight.Balanced) (fun move => move.ticks.keeps Flight.Tick.balanced)
    inFlight

theorem Proceeds.silent {part : Part} {progress : Progress}
    (h : Proceeds setting part place w w' progress) {others : Multiset Call}
    (inFlight : w.InFlight (part.calls + others)) : w'.InFlight (progress.calls + others) :=
  (h.leads 0 others).keeps (motive := Flight.Balanced)
    (fun move => move.ticks.keeps Flight.Tick.balanced) inFlight

structure Drained (setting : Setting) (place : Position) (branches : List Part) (w w' : World)
    (outcome : Outcome) : Prop where
  /-- Each branch that has not ended reports exactly once, and the block ends by these reports. -/
  heard : ∃ reports, Loops setting place branches [] w reports w' ∧ (reports.map (·.1)).Nodup ∧
    (∀ i, i ∈ reports.map (·.1) ↔ Open branches i) ∧
    outcome = setting.mode.settle (failed reports)
  /-- Of the calls in flight only those of other statements are left. -/
  silent : ∀ others, w.InFlight ((block branches []).calls + others) → w'.InFlight others

theorem Unwinds.drained_block {branches : List Part} {outcome : Outcome}
    (h : Unwinds setting (.block branches []) place w w' outcome) :
    Drained setting place branches w w' outcome := by
  obtain ⟨reports, loops, settled⟩ := h.loops branches [] rfl
  exact ⟨⟨reports, loops, loops.once.1, loops.once.2, settled⟩, fun _ => h.silent⟩

theorem Proceeds.drained_block {branches : List Part} {outcome : Outcome}
    (h : Proceeds setting (.block branches []) place w w' (.ended outcome)) :
    Drained setting place branches w w' outcome := by
  obtain ⟨reports, loops, settled⟩ := h.loops branches outcome rfl rfl
  refine ⟨⟨reports, loops, loops.once.1, loops.once.2, settled⟩, fun others inFlight => ?_⟩
  have left := h.silent inFlight
  rwa [Progress.calls, zero_add] at left

end Part

end FlowTree

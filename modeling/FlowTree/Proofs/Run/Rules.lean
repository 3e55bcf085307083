import FlowTree.Proofs.Run.Parts
import FlowTree.Proofs.Run.Poised
import Mathlib.Data.List.Perm.Basic

/-! The scheduler follows the rules: whatever a run does is allowed by the rules for parts. -/

set_option autoImplicit false

namespace FlowTree

theorem split_of_getElem? {α : Type} {xs : List α} {i : Nat} {x : α} (h : xs[i]? = some x) :
    ∃ before after, xs = before ++ x :: after ∧ before.length = i ∧
      ∀ y, xs.set i y = before ++ y :: after := by
  obtain ⟨bound, rfl⟩ := List.getElem?_eq_some_iff.1 h
  refine ⟨xs.take i, xs.drop (i + 1), ?_, List.length_take_of_le (Nat.le_of_lt bound), fun y => ?_⟩
  · rw [← List.drop_eq_getElem_cons, List.take_append_drop]
  · rw [List.set_eq_take_append_cons_drop, if_pos bound]

section

variable {α : Type} (before : List α) (value : α) (after : List α)

theorem getElem?_middle : (before ++ value :: after)[before.length]? = some value := by
  rw [List.getElem?_append_right (Nat.le_refl _), Nat.sub_self]
  rfl

theorem set_middle (new : α) :
    (before ++ value :: after).set before.length new = before ++ new :: after := by
  rw [List.set_append_right _ _ (Nat.le_refl _), Nat.sub_self]
  rfl

end

theorem exists_map_of_perm {α β : Type} {f : α → β} {xs : List β} {ys : List α}
    (h : xs.Perm (ys.map f)) : ∃ zs : List α, xs = zs.map f ∧ zs.Perm ys :=
  (iff_of_eq (congrFun (congrFun (List.eq_map_comp_perm f) xs) ys)).2 h

namespace Part

variable {setting : Setting} {branches : List Part} {branch : Part} {i : Nat}
  {failures : List Failure} {place : Position} {w mid w' : World}

theorem Unwinds.branchOk_at {outcome : Outcome} (at_i : branches[i]? = some branch)
    (fresh : branch.observed = [])
    (first : Unwinds setting branch (place ++ [i]) w mid (.ok ()))
    (others : Unwinds setting (.block (branches.set i .ended) failures) place mid w' outcome) :
    Unwinds setting (.block branches failures) place w w' outcome := by
  obtain ⟨before, after, rfl, rfl, set⟩ := split_of_getElem? at_i
  rw [set] at others
  exact .branchOk fresh first others

theorem Unwinds.branchFails_at {outcome : Outcome} {failure : Failure} {remaining : Nat}
    (at_i : branches[i]? = some branch) (fresh : branch.observed = [])
    (first : Unwinds setting branch (place ++ [i]) w mid (.error failure))
    (others : Unwinds setting (.block (branches.set i .ended) (failures ++ [failure])) place
      (observe setting.mode place failures remaining failure mid) w' outcome) :
    Unwinds setting (.block branches failures) place w w' outcome := by
  obtain ⟨before, after, rfl, rfl, set⟩ := split_of_getElem? at_i
  rw [set] at others
  exact .branchFails fresh first others

theorem Proceeds.branchWaits_at {progress : Progress} {task : Task}
    (at_i : branches[i]? = some branch)
    (first : Proceeds setting branch (place ++ [i]) w mid (.waiting task))
    (others : Proceeds setting (.block (branches.set i task.part) []) place mid w' progress) :
    Proceeds setting (.block branches []) place w w' progress := by
  obtain ⟨before, after, rfl, rfl, set⟩ := split_of_getElem? at_i
  rw [set] at others
  exact .branchWaits first others

theorem Proceeds.branchOk_at {progress : Progress} (at_i : branches[i]? = some branch)
    (first : Proceeds setting branch (place ++ [i]) w mid (.ended (.ok ())))
    (others : Proceeds setting (.block (branches.set i .ended) []) place mid w' progress) :
    Proceeds setting (.block branches []) place w w' progress := by
  obtain ⟨before, after, rfl, rfl, set⟩ := split_of_getElem? at_i
  rw [set] at others
  exact .branchOk first others

theorem Proceeds.branchFails_at {outcome : Outcome} {failure : Failure} {remaining : Nat}
    (at_i : branches[i]? = some branch)
    (first : Proceeds setting branch (place ++ [i]) w mid (.ended (.error failure)))
    (others : Unwinds setting (.block (branches.set i .ended) [failure]) place
      (observe setting.mode place [] remaining failure mid) w' outcome) :
    Proceeds setting (.block branches []) place w w' (.ended outcome) := by
  obtain ⟨before, after, rfl, rfl, set⟩ := split_of_getElem? at_i
  rw [set] at others
  exact .branchFails first others

end Part

open FlowTree.Part (Unwinds Proceeds Finishes Busy)

namespace Statement

variable {setting : Setting}

theorem skipSequence_unwinds {elements : List Statement}
    (parts : ∀ s ∈ elements, ∀ place w w' outcome,
      skip setting.mode s place w = (w', outcome) → Unwinds setting s.part place w w' outcome)
    {place : Position} {index : Nat} {w w' : World} {outcome : Outcome}
    (h : skipSequence setting.mode elements place index w = (w', outcome)) :
    Unwinds setting (.sequence index (Statement.parts elements)) place w w' outcome := by
  induction elements generalizing index w with
  | nil =>
    cases h
    exact .finished
  | cons s rest ih =>
    rw [skipSequence] at h
    split at h
    · next first =>
      have later := ih (fun s mem => parts s (List.mem_cons_of_mem _ mem)) h
      exact .next s.part_observed (parts s List.mem_cons_self _ _ _ _ first) later
    · next first =>
      cases h
      exact .stop s.part_observed (parts s List.mem_cons_self _ _ _ _ first)

-- After the branches that have not started are skipped, the block unwinds the others. The induction
-- moves the skipped branches, which have ended, to the end of `before`.
theorem skipBranches_unwinds {branches : List Statement}
    (parts : ∀ s ∈ branches, ∀ place w w' outcome,
      skip setting.mode s place w = (w', outcome) → Unwinds setting s.part place w w' outcome)
    (before : List Part) {place : Position} {failures all : List Failure} {w mid w' : World}
    {outcome : Outcome}
    (h : skipBranches setting.mode branches place before.length failures w = (mid, all))
    (others : Unwinds setting (.block (before ++ List.replicate branches.length .ended) all) place
      mid w' outcome) :
    Unwinds setting (.block (before ++ Statement.parts branches) failures) place w w' outcome := by
  induction branches generalizing before failures w with
  | nil =>
    cases h
    exact others
  | cons s rest ih =>
    have tail := fun s mem => parts s (List.mem_cons_of_mem _ mem)
    have size : before.length + 1 = (before ++ [Part.ended]).length := by simp
    rw [List.length_cons, List.replicate_succ, List.append_cons] at others
    rw [skipBranches] at h
    rw [Statement.parts]
    split at h
    · next first =>
      have head := parts s List.mem_cons_self _ _ _ _ first
      rw [size] at h
      have later := ih tail _ h others
      rw [← List.append_cons] at later
      exact .branchOk s.part_observed head later
    · next first =>
      have head := parts s List.mem_cons_self _ _ _ _ first
      rw [size] at h
      have later := ih tail _ h others
      rw [← List.append_cons] at later
      exact .branchFails s.part_observed head later

theorem skip_unwinds (s : Statement) {place : Position} {w w' : World} {outcome : Outcome}
    (h : skip setting.mode s place w = (w', outcome)) :
    Unwinds setting s.part place w w' outcome := by
  induction s generalizing place w w' outcome with
  | noop =>
    cases h
    exact .ended
  | invocation call =>
    cases h
    exact .skip
  | sequence elements ih =>
    rw [skip] at h
    exact skipSequence_unwinds (fun s mem _ _ _ _ => ih s mem) h
  | parallel branches ih =>
    rw [skip] at h
    split at h
    next mid all skipped =>
      cases h
      refine skipBranches_unwinds (fun s mem _ _ _ _ => ih s mem) [] skipped ?_
      exact .drained fun b mem => List.eq_of_mem_replicate mem

end Statement

namespace Task

variable {setting : Setting}

def unwinding (setting : Setting) (instant : Nat) (place : Position) (entry : Task × Nat) :
    Unwinding :=
  ⟨entry.2, (entry.1.dueAt instant).isSome, unwind setting entry.1 (place ++ [entry.2])⟩

theorem unwindings_eq (branches : List Task) (instant : Nat) (place : Position) (index : Nat) :
    unwindings setting branches instant place index =
      ((branches.zipIdx index).filter (!·.1.hasEnded)).map (unwinding setting instant place) := by
  induction branches generalizing index with
  | nil => rfl
  | cons task rest ih =>
    rw [unwindings, List.zipIdx_cons, List.filter_cons, ih]
    cases task.hasEnded <;> rfl

theorem unwindings_append (before after : List Task) (instant : Nat) (place : Position) (index : Nat) :
    unwindings setting (before ++ after) instant place index =
      unwindings setting before instant place index ++
        unwindings setting after instant place (index + before.length) := by
  rw [unwindings_eq, unwindings_eq, unwindings_eq, List.zipIdx_append, List.filter_append, List.map_append]

theorem unwindings_ended {branches : List Task} (all : branches.all hasEnded = true) (instant : Nat)
    (index : Nat) {place : Position} : unwindings setting branches instant place index = [] := by
  rw [unwindings_eq, List.filter_eq_nil_iff.2, List.map_nil]
  intro entry mem
  rw [List.all_eq_true.1 all entry.1 (List.fst_mem_of_mem_zipIdx mem)]
  exact Bool.false_ne_true

/-- No timer is due of branches that have not started. -/
theorem unwindings_fresh (parts : List Statement) (instant : Nat) (place : Position) (index : Nat) :
    ∀ b ∈ unwindings setting (parts.map .fresh) instant place index, b.due = false := by
  rw [unwindings_eq]
  intro b mem
  obtain ⟨entry, within, rfl⟩ := List.mem_map.1 mem
  obtain ⟨s, -, same⟩ := List.mem_map.1 (List.fst_mem_of_mem_zipIdx (List.mem_filter.1 within).1)
  rw [unwinding, ← same]
  rfl

/-- Branches that have not started are skipped in list order. -/
theorem runAll_fresh (parts : List Statement) (instant : Nat) (place : Position) (index : Nat)
    (failures : List Failure) (w : World) :
    Unwinding.runAll setting.mode place
        (unwindings setting (parts.map .fresh) instant place index) failures w =
      Statement.skipBranches setting.mode parts place index failures w := by
  induction parts generalizing index failures w with
  | nil => rfl
  | cons s rest ih =>
    have size : (unwindings setting (rest.map .fresh) instant place (index + 1)).length = rest.length := by
      rw [unwindings_eq, List.length_map, List.filter_eq_self.2, List.length_zipIdx, List.length_map]
      intro entry mem
      obtain ⟨s, -, same⟩ := List.mem_map.1 (List.fst_mem_of_mem_zipIdx mem)
      rw [← same]
      rfl
    show Unwinding.runAll setting.mode place (⟨index, false, s.skip setting.mode (place ++ [index])⟩ ::
      unwindings setting (rest.map .fresh) instant place (index + 1)) failures w = _
    rw [Unwinding.runAll, Statement.skipBranches, size]
    simp only
    rcases s.skip setting.mode (place ++ [index]) w with ⟨w', failure | _⟩
    · exact ih _ _ _
    · exact ih _ _ _

theorem inTurn_perm (queue : List Nat) (branches : List Unwinding) :
    (Unwinding.inTurn queue branches).Perm branches := by
  induction queue generalizing branches with
  | nil => exact .refl _
  | cons index queue ih =>
    rw [Unwinding.inTurn]
    split
    · exact ((ih _).append_left _).trans (List.filter_append_perm _ _)
    · exact .refl _

/-- Branches of which no timer is due end in list order. -/
theorem inTurn_calm (queue : List Nat) {branches : List Unwinding}
    (calm : ∀ b ∈ branches, b.due = false) : Unwinding.inTurn queue branches = branches := by
  have none : branches.any (·.due) = false := List.any_eq_false.2 fun b mem => by simp [calm b mem]
  cases queue with
  | nil => rfl
  | cons index queue => rw [Unwinding.inTurn, none]; rfl

/-- Branches of a block that are still to end, each with its index. -/
structure Pending (entries : List (Task × Nat)) (branches : List Part) : Prop where
  apart : (entries.map (·.2)).Nodup
  found : ∀ entry ∈ entries, branches[entry.2]? = some entry.1.part
  others : ∀ i b, branches[i]? = some b → b ≠ .ended → i ∈ entries.map (·.2)

theorem Pending.perm {entries reordered : List (Task × Nat)} {branches : List Part}
    (pending : Pending entries branches) (perm : reordered.Perm entries) :
    Pending reordered branches where
  apart := (perm.map _).nodup_iff.2 pending.apart
  found entry mem := pending.found entry (perm.mem_iff.1 mem)
  others i b at_i active := (perm.map _).mem_iff.2 (pending.others i b at_i active)

theorem Pending.tail {entry : Task × Nat} {entries : List (Task × Nat)} {branches : List Part}
    (pending : Pending (entry :: entries) branches) :
    Pending entries (branches.set entry.2 .ended) := by
  obtain ⟨fresh, apart⟩ := List.nodup_cons.1 pending.apart
  refine ⟨apart, fun other mem => ?_, fun i b at_i active => ?_⟩
  · have differ : entry.2 ≠ other.2 := fun same => fresh (List.mem_map.2 ⟨other, mem, same.symm⟩)
    rw [List.getElem?_set_ne differ]
    exact pending.found other (List.mem_cons_of_mem _ mem)
  · by_cases same : entry.2 = i
    · subst same
      rw [List.getElem?_set_self' ] at at_i
      cases old : branches[entry.2]? <;> rw [old] at at_i <;> cases at_i
      exact absurd rfl active
    · rw [List.getElem?_set_ne same] at at_i
      rcases List.mem_cons.1 (pending.others i b at_i active) with first | later
      · exact absurd first.symm same
      · exact later

theorem runAll_unwinds {entries : List (Task × Nat)} {branches : List Part}
    (pending : Pending entries branches)
    (parts : ∀ entry ∈ entries, ∀ place w w' outcome,
      unwind setting entry.1 place w = (w', outcome) →
        Unwinds setting entry.1.part place w w' outcome)
    {instant : Nat} {place : Position} {failures all : List Failure} {w w' : World}
    (h : Unwinding.runAll setting.mode place (entries.map (unwinding setting instant place))
      failures w = (w', all)) :
    Unwinds setting (.block branches failures) place w w' (setting.mode.settle all) := by
  induction entries generalizing branches failures w with
  | nil =>
    cases h
    refine .drained fun b mem => ?_
    obtain ⟨i, at_i⟩ := List.mem_iff_getElem?.1 mem
    by_cases active : b = .ended
    · exact active
    · cases pending.others i b at_i active
  | cons entry rest ih =>
    have tail := fun entry mem => parts entry (List.mem_cons_of_mem _ mem)
    have at_entry := pending.found entry List.mem_cons_self
    rw [List.map_cons, Unwinding.runAll] at h
    split at h
    · next first =>
      have head := parts entry List.mem_cons_self _ _ _ _ first
      exact Unwinds.branchOk_at at_entry entry.1.part_observed head (ih pending.tail tail h)
    · next first =>
      have head := parts entry List.mem_cons_self _ _ _ _ first
      exact Unwinds.branchFails_at at_entry entry.1.part_observed head (ih pending.tail tail h)

theorem parts_getElem? (branches : List Task) (i : Nat) :
    (Task.parts branches)[i]? = branches[i]?.map Task.part := by
  rw [parts_eq_map, List.getElem?_map]

theorem pending_of_branches (branches : List Task) :
    Pending ((branches.zipIdx 0).filter (!·.1.hasEnded)) (Task.parts branches) := by
  refine ⟨?_, fun entry mem => ?_, fun i b at_i active => ?_⟩
  · refine List.Nodup.sublist (List.filter_sublist.map _) ?_
    rw [List.zipIdx_map_snd]
    exact List.nodup_range'
  · have at_entry := List.mem_zipIdx_iff_getElem?.1 (List.mem_filter.1 mem).1
    rw [parts_getElem?, at_entry, Option.map_some]
  · rw [parts_getElem?] at at_i
    obtain ⟨task, at_task, rfl⟩ := Option.map_eq_some_iff.1 at_i
    have waits : task.hasEnded = false := Bool.eq_false_iff.2 fun gone => active (part_of_hasEnded gone)
    refine List.mem_map.2 ⟨(task, i), List.mem_filter.2 ⟨?_, by rw [waits]; rfl⟩, rfl⟩
    exact List.mem_zipIdx_iff_getElem?.2 at_task

theorem collapse_unwinds_of {branches : List Task}
    (parts : ∀ task ∈ branches, ∀ place w w' outcome,
      unwind setting task place w = (w', outcome) → Unwinds setting task.part place w w' outcome)
    {queue : List Nat} {place : Position} {failures all : List Failure} {w w' : World}
    (h : Unwinding.runAll setting.mode place
      (Unwinding.inTurn queue (unwindings setting branches w.clock place 0)) failures w = (w', all)) :
    Unwinds setting (.block (Task.parts branches) failures) place w w' (setting.mode.settle all) := by
  have perm := inTurn_perm queue (unwindings setting branches w.clock place 0)
  rw [unwindings_eq] at perm h
  obtain ⟨entries, eq, perm⟩ := exists_map_of_perm perm
  rw [eq] at h
  refine runAll_unwinds ((pending_of_branches branches).perm perm) ?_ h
  intro entry mem
  have member := (List.mem_filter.1 (perm.mem_iff.1 mem)).1
  exact parts entry.1 (List.mem_of_getElem? (List.mem_zipIdx_iff_getElem?.1 member))

theorem unwind_unwinds (task : Task) {place : Position} {w w' : World} {outcome : Outcome}
    (h : unwind setting task place w = (w', outcome)) :
    Unwinds setting task.part place w w' outcome := by
  induction task generalizing place w w' outcome with
  | ended =>
    cases h
    exact .ended
  | fresh s => exact Statement.skip_unwinds s h
  | calling call =>
    rw [unwind] at h
    split at h
    next unwound =>
      cases h
      exact .call unwound
  | sequence current index rest ih =>
    rw [unwind] at h
    split at h
    · next first =>
      have later := Statement.skipSequence_unwinds (fun s _ _ _ _ _ => Statement.skip_unwinds s) h
      exact .next current.part_observed (ih first) later
    · next first =>
      cases h
      exact .stop current.part_observed (ih first)
  | block branches queue handedBack ih =>
    rw [unwind] at h
    split at h
    next mid all unwound =>
      cases h
      exact collapse_unwinds_of (fun task mem _ _ _ _ => ih task mem) unwound

theorem collapse_unwinds {branches : List Task} {queue : List Nat} {place : Position}
    {failures : List Failure} {w w' : World} {outcome : Outcome}
    (h : collapse setting branches queue place failures w = (w', outcome)) :
    Unwinds setting (.block (Task.parts branches) failures) place w w' outcome := by
  rw [collapse] at h
  split at h
  next mid all unwound =>
    cases h
    exact collapse_unwinds_of (fun task _ _ _ _ _ => unwind_unwinds task) unwound

theorem parts_set (branches : List Task) (i : Nat) (new : Task) :
    Task.parts (branches.set i new) = (Task.parts branches).set i new.part := by
  rw [parts_eq_map, List.map_set, ← parts_eq_map]

theorem wake_part (instant : Nat) (task : Task) : (task.wake instant).part = task.part := by
  induction task with
  | ended | fresh | calling => rfl
  | sequence current index rest ih => rw [wake, part, part, ih]
  | block branches queue handedBack ih =>
    rw [wake, part, part, wakeAll_eq_map, parts_eq_map, parts_eq_map, List.map_map]
    exact congrArg (Part.block · []) (List.map_congr_left ih)

theorem Rests.busy {p : Call → Prop} {task : Task} (rests : task.Rests p) : Busy task.part := by
  induction rests with
  | calling => exact .calling _
  | sequence _ ih => exact .sequence ih
  | @block branches handedBack each live ih =>
    refine .block (fun b mem active => ?_) ?_
    · rw [parts_eq_map] at mem
      obtain ⟨t, found, rfl⟩ := List.mem_map.1 mem
      exact ih t found (Bool.eq_false_iff.2 fun gone => active (part_of_hasEnded gone))
    · obtain ⟨t, mem, active⟩ := live
      refine ⟨t.part, parts_eq_map branches ▸ List.mem_map_of_mem mem, fun gone => ?_⟩
      have waits := ih t mem active
      rw [gone] at waits
      cases waits

/-- The states between two polls, whatever the calls are that wait. -/
theorem kept_trivially (setting : Setting) : Kept setting (fun _ => True) (fun _ => True) :=
  ⟨fun _ _ _ => trivial, fun _ _ => trivial, fun _ _ => trivial⟩

-- A branch that is found by the queue and has ended goes on to be ended, and leaves the block as it is.
theorem branch_cases (branches : List Task) (index : Nat) :
    branches.getD index .ended = .ended ∧ branches.set index .ended = branches ∨
      (Task.parts branches)[index]? = some (branches.getD index .ended).part := by
  rw [parts_getElem?, List.getD_eq_getElem?_getD]
  cases found : branches[index]? with
  | none => exact .inl ⟨rfl, List.set_eq_of_length_le (List.getElem?_eq_none_iff.1 found)⟩
  | some task => exact .inr rfl

theorem Polls.proceeds {task : Task} {place : Position} {w w' : World} {progress : Progress}
    (h : Polls setting task place w w' progress) (poised : task.Poised fun _ => True) :
    Proceeds setting task.part place w w' progress := by
  induction h with
  | ended | noop => exact .ended
  | skip late => exact .skip late
  | start live started => exact .start live started
  | resume resumed => exact .resume resumed
  | nothing => exact .finished
  | elements _ ih => exact ih (.sequence (.fresh _))
  | wait _ ih =>
    cases poised with | sequence inner
    exact .wait (ih inner)
  | stop _ ih =>
    cases poised with | sequence inner
    exact .stop (ih inner)
  | @last _ index place _ w' _ ih =>
    cases poised with | sequence inner
    have finished : Proceeds setting (.sequence (index + 1) (Statement.parts [])) place w' w' _ := .finished
    exact .next (ih inner) finished
  | next _ _ ih later =>
    cases poised with | sequence inner
    exact .next (ih inner) (later (.sequence (.fresh _)))
  | branches _ ih =>
    have inner := ih (poised_branches _ _ _)
    rwa [part, parts_fresh] at inner
  | @rest branches queue before handedBack place w idle =>
    exact .rest fun live => (poised.rests_of_calm true (idle live).1 live).busy.begun
  | @branchWaits branches index queue handedBack task place w mid w' progress first later ih later_ih =>
    have waits := ih (poised.branch index)
    have paused := first.paused (kept_trivially setting) (poised.branch index) trivial
    have others := later_ih (poised.replace _ paused)
    rw [part, parts_set] at others
    refine Proceeds.branchWaits_at ?_ waits others
    rw [parts_getElem?, first.found, Option.map_some]
  | @branchWaitsLast branches index queue before handedBack task place w w' first calm ih =>
    have waits := ih (poised.branch index)
    have at_index := first.found
    have rest : Proceeds setting (.block ((parts branches).set index task.part) []) place w' w'
        (.ofBranches (branches.set index task) (requeue task index queue) handedBack) := ?_
    refine Proceeds.branchWaits_at ?_ waits rest
    · rw [parts_getElem?, at_index, Option.map_some]
    · rw [← parts_set]
      have here : task.part ∈ parts (branches.set index task) := ?_
      refine .rest fun _ => .block here waits.begun
      rw [parts_set]
      refine List.mem_set ?_ _
      rw [parts_eq_map, List.length_map]
      exact (List.getElem?_eq_some_iff.1 at_index).1
  | @branchOk branches index queue handedBack place w mid w' progress first later ih later_ih =>
    have others := later_ih (poised.ends _)
    rcases branch_cases branches index with ⟨gone, same⟩ | at_index
    · rw [gone] at first
      cases first
      rwa [same] at others
    · rw [part, parts_set] at others
      exact Proceeds.branchOk_at at_index (ih (poised.branch index)) others
  | @branchFails branches index queue handedBack place w mid w' failure outcome first collapsed ih =>
    have drains := collapse_unwinds collapsed
    rcases branch_cases branches index with ⟨gone, same⟩ | at_index
    · rw [gone] at first
      cases first
    · rw [parts_set] at drains
      exact Proceeds.branchFails_at at_index (ih (poised.branch index)) drains

theorem poll_proceeds {task : Task} {place : Position} {w w' : World} {progress : Progress}
    (poised : task.Poised fun _ => True) (h : poll setting task place w = (w', progress)) :
    Proceeds setting task.part place w w' progress :=
  (poll_polls h).proceeds poised

/-- A task that timers have woken goes on as the part that it is. -/
theorem Rests.proceeds {p : Call → Prop} {task : Task} (rests : task.Rests p) {instant : Nat}
    {place : Position} {w w' : World} {progress : Progress}
    (h : (task.wake instant).poll setting place w = (w', progress)) :
    Proceeds setting task.part place w w' progress :=
  wake_part instant task ▸ poll_proceeds (rests.wake fun _ _ _ => trivial) h

theorem wake_unwinds {task : Task} {instant : Nat} {place : Position} {w w' : World} {outcome : Outcome}
    (h : (task.wake instant).unwind setting place w = (w', outcome)) :
    Unwinds setting task.part place w w' outcome :=
  wake_part instant task ▸ unwind_unwinds _ h

variable (setting) in
/-- A task that waits fails when its scope is cancelled. -/
theorem Rests.unwind_fails {p : Call → Prop} {task : Task} (rests : task.Rests p) (instant : Nat)
    (place : Position) (w : World) :
    ∃ failure, ((task.wake instant).unwind setting place w).2 = .error failure :=
  (wake_unwinds (Prod.eta _).symm).fails_of_begun rests.busy.begun

theorem poll_paused {task new : Task} {place : Position} {w w' : World}
    (poised : task.Poised fun _ => True) (h : poll setting task place w = (w', .waiting new)) :
    new.Paused fun _ => True :=
  (poll_polls h).paused (kept_trivially setting) poised trivial

theorem Rests.poll_paused {p : Call → Prop} {task new : Task} (rests : task.Rests p) {instant : Nat}
    {place : Position} {w w' : World}
    (h : (task.wake instant).poll setting place w = (w', .waiting new)) :
    new.Paused fun _ => True :=
  Task.poll_paused (rests.wake fun _ _ _ => trivial) h

end Task

namespace Machine

variable {setting : Setting}

theorem ofProgress_ended {state : World × Progress} {w : World} {outcome : Outcome}
    (h : ofProgress state = .ended w outcome) : state = (w, .ended outcome) := by
  unfold ofProgress at h
  split at h <;> simp_all

theorem cancel_ended {w w' : World} {task : Task} {deadline : Nat} {outcome : Outcome}
    (h : cancel setting w task deadline = .ended w' outcome) :
    Unwinds setting task.part [] { w with clock := max w.clock deadline, cancelled := true } w' outcome := by
  obtain ⟨last, result⟩ := Machine.ended.inj h
  exact Task.wake_unwinds (Prod.ext last result)

theorem next_cases (cancelAt : Option Nat) (w : World) {task : Task}
    (paused : task.Paused fun _ => True) :
    (∃ instant w' outcome, next setting cancelAt w task = .ended w' outcome ∧ Busy task.part ∧
      Unwinds setting task.part [] { w with clock := instant, cancelled := true } w' outcome) ∨
    ∃ instant w' progress, next setting cancelAt w task = ofProgress (w', progress) ∧
      Proceeds setting task.part [] { w with clock := instant } w' progress ∧
      ∀ new, progress = .waiting new → new.Paused fun _ => True := by
  unfold next
  split
  · exact .inr ⟨w.clock, _, _, rfl, Task.poll_proceeds paused.poised rfl,
      fun new eq => Task.poll_paused paused.poised (Prod.ext rfl eq)⟩
  · next asleep =>
    have rests := paused.rests (Bool.eq_false_iff.2 asleep)
    have cut (deadline : Nat) : ∃ instant w' outcome,
        cancel setting w task deadline = .ended w' outcome ∧ Busy task.part ∧
          Unwinds setting task.part [] { w with clock := instant, cancelled := true } w' outcome :=
      ⟨_, _, _, rfl, rests.busy, Task.wake_unwinds rfl⟩
    have goes (instant : Nat) : ∃ instant' w' progress,
        pass setting w task instant = ofProgress (w', progress) ∧
          Proceeds setting task.part [] { w with clock := instant' } w' progress ∧
          ∀ new, progress = .waiting new → new.Paused fun _ => True :=
      ⟨instant, _, _, rfl, rests.proceeds rfl, fun new eq => rests.poll_paused (Prod.ext rfl eq)⟩
    split
    · exact .inl (cut _)
    · split
      · split
        · exact .inl (cut _)
        · exact .inr (goes _)
      · exact .inr (goes _)

-- The instant of the first step is left open: the rules let time move by any amount.
theorem finish_finishes (cancelAt : Option Nat) (w : World) {task : Task}
    (paused : task.Paused fun _ => True) :
    ∃ instant, Finishes setting task.part { w with clock := instant }
      (finish setting cancelAt w task).1 (finish setting cancelAt w task).2 := by
  fun_induction finish setting cancelAt w task with
  | case1 w task last outcome step =>
    rcases next_cases cancelAt w paused with
      ⟨instant, w', o, next, busy, unwound⟩ | ⟨instant, w', progress, next, turn, -⟩
    · rw [step] at next
      cases next
      exact ⟨w.clock, .cancelled busy unwound⟩
    · rw [step] at next
      cases ofProgress_ended next.symm
      exact ⟨instant, .ended turn⟩
  | case2 w task mid later step ih =>
    rcases next_cases cancelAt w paused with
      ⟨instant, w', o, next, busy, unwound⟩ | ⟨instant, w', progress, next, turn, left⟩
    · rw [step] at next
      cases next
    · rw [step] at next
      cases ofProgress_waiting next.symm
      obtain ⟨after, finishes⟩ := ih (left later rfl)
      exact ⟨instant, .waits turn finishes⟩

theorem finish_of_ended {cancelAt : Option Nat} {w w' : World} {task : Task} {outcome : Outcome}
    (step : next setting cancelAt w task = .ended w' outcome) :
    finish setting cancelAt w task = (w', outcome) := by
  rw [finish]
  split
  · next eq =>
    cases step.symm.trans eq
    rfl
  · next eq => cases step.symm.trans eq

theorem finish_of_waiting {cancelAt : Option Nat} {w mid : World} {task later : Task}
    (step : next setting cancelAt w task = .waiting mid later) :
    finish setting cancelAt w task = finish setting cancelAt mid later := by
  rw [finish]
  split
  · next eq => cases step.symm.trans eq
  · next eq =>
    cases step.symm.trans eq
    rfl

/-- A machine after a number of steps. -/
def after (setting : Setting) (cancelAt : Option Nat) : (steps : Nat) → Machine → Machine
  | 0, machine => machine
  | _ + 1, .ended w outcome => .ended w outcome
  | steps + 1, .waiting w task => after setting cancelAt steps (next setting cancelAt w task)

theorem finish_of_after {cancelAt : Option Nat} (steps : Nat) {w w' : World} {task : Task}
    {outcome : Outcome} (ends : after setting cancelAt steps (.waiting w task) = .ended w' outcome) :
    finish setting cancelAt w task = (w', outcome) := by
  induction steps generalizing w task with
  | zero => cases ends
  | succ steps ih =>
    rw [after] at ends
    cases step : next setting cancelAt w task with
    | ended last result =>
      rw [step] at ends
      cases steps <;> cases ends <;> exact finish_of_ended step
    | waiting mid later =>
      rw [step] at ends
      rw [finish_of_waiting step, ih ends]

theorem run_of_after {cancelAt : Option Nat} (steps : Nat) {w w' : World} {root : Statement}
    {outcome : Outcome} (ends : after setting cancelAt steps (start root w) = .ended w' outcome) :
    run setting cancelAt root w = (w', outcome) := finish_of_after steps ends

/-- A root that asks for it is polled again at once, as is one that has not started. -/
theorem next_of_woken {cancelAt : Option Nat} {w : World} {task : Task} (woken : task.woken = true) :
    next setting cancelAt w task = ofProgress (task.poll setting [] w) := if_pos woken

theorem run_finishes (setting : Setting) (cancelAt : Option Nat) (root : Statement) (w : World) :
    Finishes setting root.part w (run setting cancelAt root w).1 (run setting cancelAt root w).2 := by
  have poised : (Task.fresh root).Poised fun _ => True := .fresh root
  have first : next setting cancelAt w (.fresh root) = ofProgress ((Task.fresh root).poll setting [] w) :=
    next_of_woken rfl
  unfold run
  rcases polled : (Task.fresh root).poll setting [] w with ⟨mid, task | outcome⟩ <;> rw [polled] at first
  · rw [finish_of_waiting first]
    obtain ⟨instant, finishes⟩ := finish_finishes cancelAt mid (Task.poll_paused poised polled)
    exact .waits (Task.poll_proceeds poised polled) finishes
  · rw [finish_of_ended first]
    exact .ended (Task.poll_proceeds poised polled)

end Machine

theorem Workflow.run_of_after {workflow : Workflow} {setting : Setting} {cancellation : Cancellation}
    {called : List String} (steps : Nat) {w : World} {outcome : Outcome}
    (ends : Machine.after setting cancellation.at? steps
      (.start workflow.root (workflow.world called cancellation.before)) = .ended w outcome) :
    workflow.run setting cancellation called = close w outcome := by
  rw [run, Machine.run_of_after steps ends]

theorem Workflow.run_finishes (workflow : Workflow) (setting : Setting)
    (cancellation : Cancellation) (called : List String) :
    ∃ w outcome, workflow.run setting cancellation called = close w outcome ∧
      Finishes setting workflow.root.part (workflow.world called cancellation.before) w outcome :=
  ⟨_, _, rfl, Machine.run_finishes setting cancellation.at? workflow.root _⟩

end FlowTree

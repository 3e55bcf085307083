import FlowTree.Proofs.Run.Calm
import FlowTree.Proofs.Run.Congruence

/-! Idle branches. Where no block yields, a branch that does nothing can be left out of a block: all others
go on in the same order, if under other indices, and end in the same order. -/

set_option autoImplicit false

namespace FlowTree.Likeness

open List (Forall₂)

variable {setting : Setting} {l : Likeness setting} {instant k : Nat} {a b : World}

section Indices

/-- The index in a block of a branch that has a given index once the branch at `k` is left out. -/
def raise (k i : Nat) : Nat := if i < k then i else i + 1

theorem raise_of_lt {k i : Nat} (less : i < k) : raise k i = i := if_pos less

theorem raise_of_le {k i : Nat} (le : k ≤ i) : raise k i = i + 1 := if_neg (Nat.not_lt.2 le)

theorem raise_succ (k i : Nat) : raise (k + 1) (i + 1) = raise k i + 1 := by
  unfold raise
  split <;> split <;> omega

theorem raise_inj {k i j : Nat} : raise k i = raise k j ↔ i = j := by
  unfold raise
  split <;> split <;> omega

theorem raise_ne (k i : Nat) : raise k i ≠ k := by
  unfold raise
  split <;> omega

/-- A queue beside the one in which the branch at `k` is left out. -/
def Lacks (k : Nat) (queue queue' : List Nat) : Prop := queue.filter (· != k) = queue'.map (raise k)

theorem Lacks.head {i : Nat} {queue queue' : List Nat} (lacks : Lacks k (i :: queue) queue') :
    (i = k ∧ Lacks k queue queue') ∨
      ∃ j rest, queue' = j :: rest ∧ i = raise k j ∧ Lacks k queue rest := by
  unfold Lacks at lacks
  rw [List.filter_cons] at lacks
  split at lacks
  · obtain ⟨j, rest, rfl, eq, later⟩ := List.map_eq_cons_iff.1 lacks.symm
    exact .inr ⟨j, rest, rfl, eq.symm, later.symm⟩
  · next same => exact .inl ⟨by simpa using same, lacks⟩

theorem lacks_map (queue : List Nat) : Lacks k (queue.map (raise k)) queue :=
  List.filter_eq_self.2 fun i mem => by
    obtain ⟨j, -, rfl⟩ := List.mem_map.1 mem
    simpa using raise_ne k j

end Indices

section Branches

variable {v t u : Task} {ts us : List Task}

/-- The branches of a block beside those of one that lacks the branch `v` at `k`. -/
inductive Thin (l : Likeness setting) (v : Task) : Nat → List Task → List Task → Prop where
  | here {ts us : List Task} (each : Forall₂ l.Tasks ts us) : Thin l v 0 (v :: ts) us
  | later {k : Nat} {t u : Task} {ts us : List Task} (first : l.Tasks t u) (rest : Thin l v k ts us) :
    Thin l v (k + 1) (t :: ts) (u :: us)

namespace Thin

theorem getD_left_out (thin : Thin l v k ts us) : ts.getD k .ended = v := by
  induction thin with
  | here => rfl
  | later _ _ ih => exact ih

theorem getD (thin : Thin l v k ts us) (i : Nat) :
    l.Tasks (ts.getD (raise k i) .ended) (us.getD i .ended) := by
  induction thin generalizing i with
  | here each => exact getD_alike each i
  | later first _ ih =>
    cases i with
    | zero => exact first
    | succ i =>
      rw [raise_succ]
      exact ih i

theorem set (thin : Thin l v k ts us) (i : Nat) (new : l.Tasks t u) :
    Thin l v k (ts.set (raise k i) t) (us.set i u) := by
  induction thin generalizing i with
  | here each => exact .here (set_alike each i new)
  | later first rest ih =>
    cases i with
    | zero => exact .later new rest
    | succ i =>
      rw [raise_succ]
      exact .later first (ih i)

theorem set_left_out (thin : Thin l v k ts us) (v' : Task) : Thin l v' k (ts.set k v') us := by
  induction thin with
  | here each => exact .here each
  | later first _ ih => exact .later first ih

theorem wake (thin : Thin l .ended k ts us) (instant : Nat) :
    Thin l .ended k (Task.wakeAll instant ts) (Task.wakeAll instant us) := by
  induction thin with
  | here each =>
    refine .here ?_
    rw [Task.wakeAll_eq_map, Task.wakeAll_eq_map, List.forall₂_map_left_iff, List.forall₂_map_right_iff]
    exact each.imp fun _ _ tasks => tasks.matched.wake instant
  | later first _ ih => exact .later (first.matched.wake instant) ih

theorem all_hasEnded (thin : Thin l .ended k ts us) : ts.all Task.hasEnded = us.all Task.hasEnded := by
  induction thin with
  | here each =>
    have others := Task.all_hasEnded_congr (ended_alike each)
    exact others
  | later first _ ih => rw [List.all_cons, List.all_cons, first.matched.ended, ih]

theorem nextInstants (thin : Thin l .ended k ts us) : Task.nextInstants ts = Task.nextInstants us := by
  induction thin with
  | here each =>
    have others := Task.nextInstants_congr (next_alike each)
    exact others
  | later first _ ih => rw [Task.nextInstants, Task.nextInstants, first.matched.next, ih]

theorem anyDueAt (thin : Thin l .ended k ts us) (instant : Nat) :
    Task.anyDueAt instant ts = Task.anyDueAt instant us := by
  induction thin with
  | here each =>
    have others := Task.anyDueAt_congr (due_alike each instant)
    exact others
  | later first _ ih => rw [Task.anyDueAt, Task.anyDueAt, first.matched.due, ih]

end Thin

/-- The timers that are due, each with the index of its branch, of which the first has the given one. -/
def dueEntries (instant : Nat) (branches : List Task) (index : Nat) : List (Nat × Nat) :=
  (branches.zipIdx index).filterMap fun entry =>
    (entry.1.dueAt instant).map fun serial => (serial, entry.2)

theorem dueEntries_cons (index : Nat) (rest : List Task) : dueEntries instant (t :: rest) index =
    ((t.dueAt instant).map fun serial => (serial, index)).toList ++ dueEntries instant rest (index + 1) := by
  rw [dueEntries, List.zipIdx_cons, List.filterMap_cons]
  cases t.dueAt instant <;> rfl

theorem dueEntries_past (each : Forall₂ l.Tasks ts us) {index : Nat} (le : k ≤ index) :
    dueEntries instant ts (index + 1) = (dueEntries instant us index).map (Prod.map id (raise k)) := by
  induction each generalizing index with
  | nil => rfl
  | cons first _ ih =>
    rw [dueEntries_cons, dueEntries_cons, List.map_append, ih (Nat.le_succ_of_le le), first.matched.due]
    congr 1
    cases Task.dueAt instant _ with
    | none => rfl
    | some serial => exact congrArg (fun i => [(serial, i)]) (raise_of_le le).symm

theorem Thin.dueEntries (thin : Thin l .ended k ts us) (instant index : Nat) :
    Likeness.dueEntries instant ts index =
      (Likeness.dueEntries instant us index).map (Prod.map id (raise (index + k))) := by
  induction thin generalizing index with
  | here each => exact (dueEntries_cons index _).trans (dueEntries_past each (Nat.le_refl index))
  | later first _ ih =>
    rw [dueEntries_cons, dueEntries_cons, List.map_append, ih, first.matched.due, Nat.add_right_comm]
    congr 1
    cases Task.dueAt instant _ with
    | none => rfl
    | some serial =>
      exact congrArg (fun i => [(serial, i)]) (raise_of_lt (Nat.lt_succ_of_le (Nat.le_add_right _ _))).symm

theorem orderByKey_map {α β : Type} (key : α → Nat) (key' : β → Nat) {f : α → β}
    (same : ∀ a, key' (f a) = key a) (values : List α) :
    orderByKey key' (values.map f) = (orderByKey key values).map f := by
  have insert (a : α) (sorted : List α) :
      insertByKey key' (f a) (sorted.map f) = (insertByKey key a sorted).map f := by
    induction sorted with
    | nil => rfl
    | cons b rest ih =>
      rw [List.map_cons, insertByKey, insertByKey, same, same]
      split
      · rw [ih, List.map_cons]
      · rfl
  have step (sorted : List α) : (values.map f).foldl (fun sorted a => insertByKey key' a sorted)
      (sorted.map f) = (values.foldl (fun sorted a => insertByKey key a sorted) sorted).map f := by
    induction values generalizing sorted with
    | nil => rfl
    | cons a rest ih => rw [List.map_cons, List.foldl_cons, List.foldl_cons, insert, ih]
  exact step []

theorem Thin.queueAt (thin : Thin l .ended k ts us) (instant : Nat) :
    Lacks k (Task.queueAt instant ts) (Task.queueAt instant us) := by
  have queues : Task.queueAt instant ts = (Task.queueAt instant us).map (raise k) := by
    have entries := thin.dueEntries instant 0
    rw [Nat.zero_add] at entries
    have ordered := orderByKey_map Prod.fst Prod.fst (f := Prod.map id (raise k)) (fun _ => rfl)
      (Likeness.dueEntries instant us 0)
    rw [← entries] at ordered
    exact (congrArg (List.map Prod.snd) ordered).trans (by rw [List.map_map, Task.queueAt, List.map_map]; rfl)
  rw [queues]
  exact lacks_map _

/-- Branches that are to end, beside those without the one at `k`, which does nothing. -/
inductive Sheds (l : Likeness setting) (instant k : Nat) : List Unwinding → List Unwinding → Prop where
  | nil : Sheds l instant k [] []
  | keep {x y : Unwinding} {xs ys : List Unwinding} (index : x.index = raise k y.index)
    (due : x.due = y.due) (run : ∀ {a b}, l.Meets instant a b → l.Ends instant (x.run a) (y.run b))
    (later : Sheds l instant k xs ys) : Sheds l instant k (x :: xs) (y :: ys)
  | shed {x : Unwinding} {xs ys : List Unwinding} (index : x.index = k) (due : x.due = false)
    (idle : ∀ w, x.run w = (w, .ok ())) (later : Sheds l instant k xs ys) :
    Sheds l instant k (x :: xs) ys

namespace Sheds

variable {xs ys : List Unwinding}

theorem anyDue (sheds : Sheds l instant k xs ys) : xs.any (·.due) = ys.any (·.due) := by
  induction sheds with
  | nil => rfl
  | keep _ due _ _ ih => rw [List.any_cons, List.any_cons, due, ih]
  | shed _ due _ _ ih => rw [List.any_cons, due, Bool.false_or, ih]

theorem append {xs' ys' : List Unwinding} (sheds : Sheds l instant k xs ys)
    (others : Sheds l instant k xs' ys') : Sheds l instant k (xs ++ xs') (ys ++ ys') := by
  induction sheds with
  | nil => exact others
  | keep index due run _ ih => exact .keep index due run ih
  | shed index due idle _ ih => exact .shed index due idle ih

theorem filter (sheds : Sheds l instant k xs ys) {f g : Nat → Bool}
    (same : ∀ i, f (raise k i) = g i) :
    Sheds l instant k (xs.filter fun x => f x.index) (ys.filter fun y => g y.index) := by
  induction sheds with
  | nil => exact .nil
  | @keep x y _ _ index due run _ ih =>
    rw [List.filter_cons, List.filter_cons, index, same]
    split
    · exact .keep index due run ih
    · exact ih
  | shed index due idle _ ih =>
    rw [List.filter_cons]
    split
    · exact .shed index due idle ih
    · exact ih

/-- The branch that is left out is not among those with other indices. -/
theorem none (sheds : Sheds l instant k xs ys) : Sheds l instant k (xs.filter (·.index == k)) [] := by
  induction sheds with
  | nil => exact .nil
  | @keep x y _ _ index _ _ _ ih =>
    rw [List.filter_cons, if_neg (by simpa [index] using raise_ne k y.index)]
    exact ih
  | shed index due idle _ ih =>
    rw [List.filter_cons]
    split
    · exact .shed index due idle ih
    · exact ih

theorem others (sheds : Sheds l instant k xs ys) : Sheds l instant k (xs.filter (·.index != k)) ys := by
  have kept := sheds.filter (f := (· != k)) (g := fun _ => true) fun i => by simpa using raise_ne k i
  rwa [List.filter_true] at kept

theorem inTurn {queue queue' : List Nat} (lacks : Lacks k queue queue')
    (sheds : Sheds l instant k xs ys) :
    Sheds l instant k (Unwinding.inTurn queue xs) (Unwinding.inTurn queue' ys) := by
  induction queue generalizing queue' xs ys with
  | nil =>
    obtain rfl : queue' = [] := List.map_eq_nil_iff.1 lacks.symm
    exact sheds
  | cons i queue ih =>
    rw [Unwinding.inTurn]
    rcases lacks.head with ⟨rfl, others⟩ | ⟨j, rest, rfl, rfl, others⟩
    · split
      · exact sheds.none.append (ih others sheds.others)
      · next idle =>
        have calm : ∀ y ∈ ys, y.due = false := by
          rw [sheds.anyDue, Bool.not_eq_true] at idle
          simpa using idle
        rw [Task.inTurn_calm _ calm]
        exact sheds
    · rw [Unwinding.inTurn, sheds.anyDue]
      split
      · have own := sheds.filter (f := (· == raise k j)) (g := (· == j))
          fun i => Bool.eq_iff_iff.2 (by simpa using raise_inj)
        have kept := sheds.filter (f := (· != raise k j)) (g := (· != j))
          fun i => Bool.eq_iff_iff.2 (by simpa using not_congr raise_inj)
        exact own.append (ih others kept)
      · exact sheds

theorem runAll (sheds : Sheds l instant k xs ys) (meets : l.Meets instant a b) (place place' : Position)
    (failures : List Failure) : Drains l instant (Unwinding.runAll setting.mode place xs failures a)
      (Unwinding.runAll setting.mode place' ys failures b) := by
  induction sheds generalizing a b failures with
  | nil => exact .intro _ meets
  | @keep x y _ _ _ _ run _ ih =>
    have ran := run meets
    rw [Unwinding.runAll, Unwinding.runAll]
    generalize x.run a = shown at ran ⊢
    generalize y.run b = shown' at ran ⊢
    cases ran with | intro outcome meets
    cases outcome with
    | ok => exact ih meets _
    | error failure => exact ih (meets.observe _ _ _ _ _ _ _ _ _) _
  | shed _ _ idle _ ih =>
    rw [Unwinding.runAll, idle]
    exact ih meets _

end Sheds

/-- A branch that does nothing: it has ended, or is an idle statement that is still to be polled. -/
inductive Void : Task → Prop where
  | ended : Void .ended
  | fresh {s : Statement} (idle : s.Idle) : Void (.fresh s)

theorem unwindings_past (each : Forall₂ l.Tasks ts us) (place place' : Position) {index : Nat}
    (le : k ≤ index) : Sheds l instant k (Task.unwindings setting ts instant place (index + 1))
      (Task.unwindings setting us instant place' index) := by
  induction each generalizing index with
  | nil => exact .nil
  | cons first _ ih =>
    have matched := first.matched
    rw [Task.unwindings, Task.unwindings, matched.ended]
    split
    · exact ih (Nat.le_succ_of_le le)
    · refine .keep (raise_of_le le).symm ?_ (fun meets => matched.unwind meets _ _)
        (ih (Nat.le_succ_of_le le))
      rw [matched.due]

theorem Thin.unwindings (thin : Thin l v k ts us) (void : Void v) (place place' : Position) (index : Nat) :
    Sheds l instant (index + k) (Task.unwindings setting ts instant place index)
      (Task.unwindings setting us instant place' index) := by
  induction thin generalizing index with
  | here each =>
    cases void with
    | ended => exact unwindings_past each place place' (Nat.le_refl index)
    | fresh idle =>
      exact .shed rfl rfl (fun w => idle.skip) (unwindings_past each place place' (Nat.le_refl index))
  | later first _ ih =>
    have matched := first.matched
    have later := ih (index + 1)
    rw [Nat.add_right_comm] at later
    rw [Task.unwindings, Task.unwindings, matched.ended]
    split
    · exact later
    · refine .keep (raise_of_lt (Nat.lt_succ_of_le (Nat.le_add_right _ _))).symm ?_
        (fun meets => matched.unwind meets _ _) later
      rw [matched.due]

theorem Thin.collapse (thin : Thin l v k ts us) (void : Void v) {queue queue' : List Nat}
    (lacks : Lacks k queue queue') (meets : l.Meets instant a b) (place place' : Position)
    (failures : List Failure) : l.Ends instant (Task.collapse setting ts queue place failures a)
      (Task.collapse setting us queue' place' failures b) := by
  have clock : b.clock = instant := (l.clock meets.alike).symm.trans meets.clock
  have sheds : Sheds l instant (0 + k) _ _ := thin.unwindings void place place' 0
  rw [Nat.zero_add] at sheds
  have drained := (sheds.inTurn lacks).runAll meets place place' failures
  rw [Task.collapse, Task.collapse, meets.clock, clock]
  generalize Unwinding.runAll setting.mode place _ failures a = x at drained ⊢
  generalize Unwinding.runAll setting.mode place' _ failures b = y at drained ⊢
  cases drained with | intro failures meets
  exact .intro _ meets

theorem Thin.failAll (thin : Thin l v k ts us) (void : Void v) {queue queue' : List Nat}
    (lacks : Lacks k queue queue') (meets : l.Meets instant a b) (place place' : Position)
    (failure : Failure) : l.Ends instant (Task.failAll setting place ts queue failure a)
      (Task.failAll setting place' us queue' failure b) :=
  thin.collapse void lacks (meets.observe setting.mode place place' [] [] (Task.pending ts) (Task.pending us)
    failure failure) place place' [failure]

/-- A block, and one that lacks a branch which has ended. -/
inductive Thinned (l : Likeness setting) (k : Nat) : Task → Task → Prop where
  | intro {ts us : List Task} {queue queue' : List Nat} (thin : Thin l .ended k ts us)
    (lacks : Lacks k queue queue') : Thinned l k (.block ts queue false) (.block us queue' false)

section

variable (steady : setting.yields = false)
include steady

theorem Thin.pass {queue queue' : List Nat} (thin : Thin l v k ts us)
    (void : v = .ended ∨ Void v ∧ k ∈ queue) (lacks : Lacks k queue queue') (meets : l.Meets instant a b)
    (here : (Task.block ts queue true).Going a) (there : (Task.block us queue' true).Going b)
    (place place' : Position) : l.Shows instant (Thinned l k)
      (Task.Pass.progress false (Task.passAll setting (Task.poll setting) place ts queue a))
      (Task.Pass.progress false (Task.passAll setting (Task.poll setting) place' us queue' b)) := by
  induction queue generalizing v ts us queue' a b with
  | nil =>
    obtain rfl : queue' = [] := List.map_eq_nil_iff.1 lacks.symm
    obtain rfl : v = .ended := void.resolve_right fun later => List.not_mem_nil later.2
    rw [Task.passAll, Task.passAll, Task.Pass.progress, Task.Pass.progress, Progress.ofBranches,
      Progress.ofBranches, thin.all_hasEnded]
    split
    · exact .ended _ meets fun _ => here.live
    · exact .waiting meets (.intro thin lacks) rfl
  | cons i queue ih =>
    have calm := Task.calm_of_steady steady here.poised
    rcases lacks.head with ⟨rfl, others⟩ | ⟨j, rest, rfl, rfl, others⟩
    · -- The branch that is left out ends at once.
      have live := calm.head_live
      rw [thin.getD_left_out] at live
      obtain ⟨s, idle, rfl⟩ : ∃ s, s.Idle ∧ v = .fresh s := by
        rcases void with rfl | ⟨_ | ⟨idle⟩, -⟩
        · cases live
        · cases live
        · exact ⟨_, idle, rfl⟩
      have polled : (ts.getD i .ended).poll setting (place ++ [i]) a = (a, .ended (.ok ())) := by
        rw [thin.getD_left_out, idle.poll]
      rw [Task.passAll, polled]
      exact ih (thin.set_left_out .ended) (.inl rfl) others meets (here.ends polled true) there
    · have void : v = .ended ∨ Void v ∧ k ∈ queue := void.imp_right fun later =>
        ⟨later.1, (List.mem_cons.1 later.2).resolve_left (raise_ne k j).symm⟩
      have polled := (thin.getD j).matched.poll meets (here.branch _) (there.branch j)
        (place ++ [raise k j]) (place' ++ [j])
      rcases first : (ts.getD (raise k j) .ended).poll setting (place ++ [raise k j]) a with ⟨a', x⟩
      rcases second : (us.getD j .ended).poll setting (place' ++ [j]) b with ⟨b', y⟩
      rw [first, second] at polled
      rw [Task.passAll, Task.passAll, first, second]
      cases polled with
      | @waiting _ _ t u meets tasks active =>
        have asleep : t.woken = false := Task.poll_asleep steady (here.branch _).poised first
        have here := here.replace first true
        have there := there.replace second true
        rw [Task.requeue, asleep, if_neg Bool.false_ne_true] at here
        rw [Task.requeue, ← tasks.matched.woken, asleep, if_neg Bool.false_ne_true] at there
        exact ih (thin.set j tasks) void others meets here there
      | ended outcome meets =>
        cases outcome with
        | ok => exact ih (thin.set j .ended) void others meets (here.ends first true) (there.ends second true)
        | error failure =>
          have hollow : Void v := by
            rcases void with rfl | ⟨void, -⟩
            · exact .ended
            · exact void
          have ends := (thin.set j .ended).failAll hollow others meets place place' failure
          rcases first : Task.failAll setting place (ts.set (raise k j) .ended) queue failure a' with
            ⟨a', outcome⟩
          rcases second : Task.failAll setting place' (us.set j .ended) rest failure b' with ⟨b', outcome'⟩
          rw [first, second] at ends
          obtain ⟨last, rfl⟩ := (Task.collapse_unwinds first).fails_of_failure
          cases ends with | intro outcome meets
          simp only [first, second]
          exact .fails _ meets

end

end Branches

section Statements

variable {s : Statement} {before before' after after' : List Statement}

end Statements

end FlowTree.Likeness

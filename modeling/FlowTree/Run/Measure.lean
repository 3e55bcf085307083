import FlowTree.Run.Polls

/-! Every poll uses up work. The work before a task is the number of calls that have not started, after
that the number of steps before the calls in flight, and after that the number of entries in the queues.
A task with a timer due that goes on and waits has passed the sleep of that timer. -/

set_option autoImplicit false

namespace FlowTree

theorem Script.goOn_shorter {echo : String} {script : Script} {cancels : Bool} {ms : Nat}
    {rest : Script} (h : script.goOn echo = (cancels, .asleep ms rest)) :
    rest.length < script.length := by
  induction script generalizing cancels with
  | nil => simp [goOn] at h
  | cons step script ih =>
    cases step with
    | delay d =>
      by_cases zero : d = 0
      · simp only [goOn, zero, if_true] at h
        exact Nat.lt_succ_of_lt (ih h)
      · simp only [goOn, zero, if_false, Prod.mk.injEq, Standing.asleep.injEq] at h
        simp [h.2.2]
    | cancel =>
      simp only [goOn, Prod.mk.injEq] at h
      have inner : goOn echo script = ((goOn echo script).1, .asleep ms rest) := by
        rw [← h.2]
      exact Nat.lt_succ_of_lt (ih inner)
    | give | echo | fail | timeout | notRegistered => simp [goOn] at h

namespace Call

variable {setting : Setting} {w w' : World} {call call' : Call}

theorem await_asleep (h : await w call = .asleep call') : call' = call := by
  unfold await at h
  split at h
  · split at h
    · contradiction
    · injection h with h
      exact h.symm
  · injection h with h
    exact h.symm

theorem advance_asleep {steps : Script} (h : call.advance setting w steps = (w', .asleep call')) :
    call'.rest.length < steps.length := by
  unfold advance at h
  split at h
  next cancels standing goes =>
  cases standing with
  | answered answer => simp at h
  | asleep ms rest =>
    have shorter := Script.goOn_shorter goes
    simp only at h
    split at h <;>
    · injection h with _ h
      rw [await_asleep h]
      exact shorter

theorem poll_asleep (h : call.poll setting w = (w', .asleep call')) :
    call'.rest.length ≤ call.rest.length ∧
      (call.nextInstant ≤ w.clock → call'.rest.length < call.rest.length) := by
  unfold poll at h
  by_cases awake : call.wake.due ≤ w.clock
  · simp only [awake, if_true] at h
    have shorter := advance_asleep h
    exact ⟨Nat.le_of_lt shorter, fun _ => shorter⟩
  · simp only [awake, if_false, Prod.mk.injEq] at h
    have asleep := h.2
    refine ⟨await_asleep asleep ▸ Nat.le_refl _, fun due => ?_⟩
    exfalso
    unfold await at asleep
    unfold nextInstant at due
    cases expiry : call.expiry with
    | none => simp [expiry, awake] at due
    | some timer =>
      by_cases elapsed : timer.due ≤ w.clock
      · simp [expiry, elapsed] at asleep
      · simp only [expiry] at due
        omega

theorem nextInstant_le_of_dueAt {instant serial : Nat} (due : call.dueAt instant = some serial) :
    call.nextInstant ≤ instant := by
  unfold dueAt at due
  unfold nextInstant
  by_cases awake : call.wake.due ≤ instant
  · cases call.expiry <;> simp only <;> omega
  · cases expiry : call.expiry with
    | none => simp [expiry, awake] at due
    | some timer =>
      by_cases elapsed : timer.due ≤ instant
      · simp only; omega
      · simp [expiry, awake, elapsed] at due

theorem takeReply_inl {reply : Reply} (h : call.takeReply w reply = (w', .inl call')) :
    reply = .asleep call' := by
  unfold takeReply at h
  split at h
  · simp at h
  · split at h <;> simp_all

theorem resume_inl (h : call.resume setting w = (w', .inl call')) :
    call'.rest.length ≤ call.rest.length ∧
      (∀ serial, call.dueAt w.clock = some serial → call'.rest.length < call.rest.length) := by
  unfold resume at h
  have bound := poll_asleep (show call.poll setting w = (_, .asleep call') from
    Prod.ext rfl (takeReply_inl h))
  exact ⟨bound.1, fun serial due => bound.2 (nextInstant_le_of_dueAt due)⟩

end Call

theorem insertByKey_perm {α : Type} (key : α → Nat) (a : α) (values : List α) :
    (insertByKey key a values).Perm (a :: values) := by
  induction values with
  | nil => exact .refl _
  | cons b rest ih =>
    rw [insertByKey]
    split
    · exact (ih.cons b).trans (.swap a b rest)
    · exact .refl _

theorem orderByKey_perm {α : Type} (key : α → Nat) (values : List α) :
    (orderByKey key values).Perm values := by
  have step (sorted : List α) : (values.foldl (fun sorted a => insertByKey key a sorted) sorted).Perm
      (sorted ++ values) := by
    induction values generalizing sorted with
    | nil => simp
    | cons a rest ih =>
      refine (ih _).trans ?_
      refine ((insertByKey_perm key a sorted).append_right rest).trans ?_
      exact List.perm_middle.symm
  simpa [orderByKey] using step []

namespace Task

theorem least_eq_some {a b : Option Nat} {n : Nat} (h : least a b = some n) :
    a = some n ∨ b = some n := by
  cases a with
  | none => exact .inr h
  | some a =>
    cases b with
    | none => exact .inl h
    | some b =>
      simp only [least, Option.some.injEq] at h ⊢
      omega

theorem least_isSome {a b : Option Nat} (h : a.isSome ∨ b.isSome) : (least a b).isSome := by
  cases a <;> cases b <;> simp_all [least]

theorem anyDueAt_some {branches : List Task} {instant serial : Nat}
    (h : anyDueAt instant branches = some serial) : ∃ t ∈ branches, (t.dueAt instant).isSome := by
  induction branches with
  | nil => simp [anyDueAt] at h
  | cons head rest ih =>
    rw [anyDueAt] at h
    cases due : head.dueAt instant with
    | some _ => exact ⟨head, List.mem_cons_self, by simp [due]⟩
    | none =>
      simp only [due, least] at h
      have ⟨t, mem, found⟩ := ih h
      exact ⟨t, List.mem_cons_of_mem _ mem, found⟩

theorem dueAt_nextInstant (t : Task) {instant : Nat} (h : t.nextInstant = some instant) :
    (t.dueAt instant).isSome := by
  induction t with
  | ended | fresh => simp [nextInstant] at h
  | calling call =>
    simp only [nextInstant, Option.some.injEq, Call.nextInstant] at h
    simp only [dueAt, Call.dueAt]
    cases expiry : call.expiry with
    | none =>
      simp only [expiry] at h
      simp [h]
    | some timer =>
      simp only [expiry] at h
      by_cases wake : call.wake.due ≤ instant
      · simp [wake]
      · have elapsed : timer.due ≤ instant := by omega
        simp [wake, elapsed]
  | sequence current index rest ih => exact ih h
  | block branches queue handedBack ih =>
    simp only [nextInstant, dueAt] at h ⊢
    induction branches with
    | nil => simp [nextInstants] at h
    | cons head rest tail =>
      rw [nextInstants] at h
      rw [anyDueAt]
      rcases least_eq_some h with h | h
      · exact least_isSome (.inl (ih head List.mem_cons_self h))
      · exact least_isSome (.inr (tail (fun t mem => ih t (List.mem_cons_of_mem _ mem)) h))

/-- The queue at an instant holds the branches that are due. -/
theorem mem_queueAt {instant index : Nat} {branches : List Task} :
    index ∈ queueAt instant branches ↔
      ∃ task, branches[index]? = some task ∧ (task.dueAt instant).isSome := by
  rw [queueAt, List.mem_map]
  constructor
  · rintro ⟨⟨serial, i⟩, mem, rfl⟩
    have found := (orderByKey_perm _ _).mem_iff.1 mem
    obtain ⟨⟨task, j⟩, here, due⟩ := List.mem_filterMap.1 found
    obtain ⟨serial', found, eq⟩ := Option.map_eq_some_iff.1 due
    cases eq
    exact ⟨task, List.mem_zipIdx_iff_getElem?.1 here, Option.isSome_of_eq_some found⟩
  · rintro ⟨task, here, due⟩
    obtain ⟨serial, due⟩ := Option.isSome_iff_exists.1 due
    refine ⟨(serial, index), (orderByKey_perm _ _).mem_iff.2 (List.mem_filterMap.2 ?_), rfl⟩
    exact ⟨(task, index), List.mem_zipIdx_iff_getElem?.2 here, by simp [due]⟩

theorem nodup_queueAt (instant : Nat) (branches : List Task) : (queueAt instant branches).Nodup := by
  have apart : branches.zipIdx.Pairwise fun a b => a.2 ≠ b.2 := by
    rw [← List.pairwise_map, List.zipIdx_map_snd]
    exact List.nodup_range'
  rw [queueAt]
  refine ((orderByKey_perm _ _).map Prod.snd).nodup_iff.2 (List.pairwise_map.2 ?_)
  refine apart.filterMap _ fun a b other x found y found' => ?_
  obtain ⟨-, -, rfl⟩ := Option.map_eq_some_iff.1 found
  obtain ⟨-, -, rfl⟩ := Option.map_eq_some_iff.1 found'
  exact other

theorem wakeAll_eq_map (instant : Nat) (branches : List Task) :
    wakeAll instant branches = branches.map (wake instant) := by
  induction branches with
  | nil => rfl
  | cons t rest ih => rw [wakeAll, ih, List.map_cons]

section

variable {own : Task → Nat} {total : List Task → Nat}

/-- A number of a list of tasks that is the sum of those of the tasks. -/
structure Sums (own : Task → Nat) (total : List Task → Nat) : Prop where
  nil : total [] = 0
  cons : ∀ t rest, total (t :: rest) = own t + total rest
  ended : own .ended = 0

theorem sums_unstarted : Sums unstarted unstartedAll := ⟨rfl, fun _ _ => rfl, rfl⟩

theorem sums_stepsLeft : Sums stepsLeft stepsLeftAll := ⟨rfl, fun _ _ => rfl, rfl⟩

theorem sums_queued : Sums queued queuedAll := ⟨rfl, fun _ _ => rfl, rfl⟩

theorem Sums.set (sums : Sums own total) {branches : List Task} {index : Nat} {old : Task}
    (found : branches[index]? = some old) (new : Task) :
    total (branches.set index new) + own old = total branches + own new := by
  induction branches generalizing index with
  | nil => simp at found
  | cons head rest ih =>
    cases index with
    | zero =>
      simp at found
      subst found
      simp only [List.set_cons_zero, sums.cons]
      omega
    | succ index =>
      have := ih (by simpa using found)
      simp only [List.set_cons_succ, sums.cons]
      omega

/-- A branch that ends takes away its own part, whatever the queue names. -/
theorem Sums.set_ended (sums : Sums own total) (branches : List Task) (index : Nat) :
    total (branches.set index .ended) + own (branches.getD index .ended) = total branches := by
  rw [List.getD_eq_getElem?_getD]
  cases found : branches[index]? with
  | none =>
    rw [List.set_eq_of_length_le (List.getElem?_eq_none_iff.1 found), Option.getD_none, sums.ended,
      Nat.add_zero]
  | some old =>
    have := sums.set found .ended
    rwa [sums.ended, Nat.add_zero] at this

theorem Sums.map (sums : Sums own total) {change : Task → Task} (branches : List Task)
    (same : ∀ t ∈ branches, own (change t) = own t) : total (branches.map change) = total branches := by
  induction branches with
  | nil => rfl
  | cons t rest ih =>
    rw [List.map_cons, sums.cons, sums.cons, same t List.mem_cons_self,
      ih fun t mem => same t (List.mem_cons_of_mem _ mem)]

theorem Sums.fresh (sums : Sums own total) (counts : List Statement → Nat) (nil : counts [] = 0)
    (cons : ∀ s rest, counts (s :: rest) = own (.fresh s) + counts rest) (branches : List Statement) :
    total (branches.map .fresh) = counts branches := by
  induction branches with
  | nil => rw [List.map_nil, sums.nil, nil]
  | cons s rest ih => rw [List.map_cons, sums.cons, cons, ih]

end

/-- A task leaves less work than another. -/
def Fewer (a b : Task) : Prop :=
  a.unstarted < b.unstarted ∨ a.unstarted = b.unstarted ∧ (a.stepsLeft < b.stepsLeft ∨
    a.stepsLeft = b.stepsLeft ∧ a.queued < b.queued)

/-- A task leaves no more work than another, and less if it asks to be polled again. -/
def NoMore (a b : Task) : Prop :=
  a.unstarted < b.unstarted ∨ a.unstarted = b.unstarted ∧ (a.stepsLeft < b.stepsLeft ∨
    a.stepsLeft = b.stepsLeft ∧ a.queued + a.woken.toNat ≤ b.queued)

def Less (a b : Task) : Prop :=
  a.unstarted < b.unstarted ∨ a.unstarted = b.unstarted ∧ a.stepsLeft < b.stepsLeft

theorem NoMore.trans_fewer {a b c : Task} (noMore : a.NoMore b) (fewer : b.Fewer c) : a.NoMore c := by
  unfold NoMore Fewer at *
  omega

theorem NoMore.trans_less {a b c : Task} (noMore : a.NoMore b) (less : b.Less c) : a.Less c := by
  unfold NoMore Less at *
  omega

theorem Fewer.noMore {a b : Task} (fewer : a.Fewer b) : a.NoMore b := by
  have : a.woken.toNat ≤ 1 := a.woken.toNat_le
  unfold NoMore Fewer at *
  omega

theorem length_requeue (task : Task) (index : Nat) (queue : List Nat) :
    (requeue task index queue).length = queue.length + task.woken.toNat := by
  unfold requeue
  cases task.woken <;> simp

theorem ofBranches_waiting {branches : List Task} {queue : List Nat} {handedBack : Bool} {task : Task}
    (h : Progress.ofBranches branches queue handedBack = .waiting task) :
    task = .block branches queue handedBack ∧ branches.all hasEnded = false := by
  unfold Progress.ofBranches at h
  split at h
  · cases h
  · next live =>
    cases h
    exact ⟨rfl, Bool.eq_false_iff.2 live⟩

variable {setting : Setting} {place : Position} {w mid w' : World}

/-- What waits after a poll is in its place. -/
theorem Polls.found {branches : List Task} {index : Nat} {task : Task}
    (h : Polls setting (branches.getD index .ended) place w w' (.waiting task)) :
    branches[index]? = some (branches.getD index .ended) := by
  rw [List.getD_eq_getElem?_getD] at h ⊢
  cases found : branches[index]? with
  | none =>
    rw [found] at h
    cases h
  | some old => rfl

section

variable {branches : List Task} {index : Nat} {queue : List Nat} {task : Task} {before after : Bool}

theorem NoMore.set (found : branches[index]? = some (branches.getD index .ended))
    (noMore : task.NoMore (branches.getD index .ended)) :
    (block (branches.set index task) (requeue task index queue) after).Fewer
      (block branches (index :: queue) before) := by
  have unstarted := sums_unstarted.set found task
  have stepsLeft := sums_stepsLeft.set found task
  have queued := sums_queued.set found task
  have length := length_requeue task index queue
  simp only [NoMore, Fewer, Task.unstarted, Task.stepsLeft, Task.queued, List.length_cons] at *
  omega

theorem fewer_set_ended : (block (branches.set index .ended) queue after).Fewer
    (block branches (index :: queue) before) := by
  have unstarted := sums_unstarted.set_ended branches index
  have stepsLeft := sums_stepsLeft.set_ended branches index
  have queued := sums_queued.set_ended branches index
  simp only [Fewer, Task.unstarted, Task.stepsLeft, Task.queued, List.length_cons]
  omega

end

theorem queued_branches (branches : List Statement) :
    (block (branches.map .fresh) (List.range branches.length) true).queued =
      (fresh (.parallel branches)).queued := by
  rw [queued, queued, List.length_range,
    sums_queued.fresh Statement.branchCounts rfl (fun _ _ => rfl)]
  rfl

theorem unstarted_branches (branches : List Statement) :
    (block (branches.map .fresh) (List.range branches.length) true).unstarted =
      (fresh (.parallel branches)).unstarted := by
  rw [unstarted, unstarted, sums_unstarted.fresh Statement.invocationCounts rfl (fun _ _ => rfl)]
  rfl

theorem stepsLeft_branches (branches : List Statement) :
    (block (branches.map .fresh) (List.range branches.length) true).stepsLeft = 0 := by
  rw [stepsLeft, sums_stepsLeft.fresh (fun _ => 0) rfl fun _ _ => rfl]

/-- A task that is polled and waits leaves no more work than it had. -/
theorem Polls.noMore {t new : Task} (h : Polls setting t place w w' (.waiting new)) : new.NoMore t := by
  generalize eq : Progress.waiting new = progress at h
  induction h generalizing new with
  | ended | noop | skip | nothing | stop | last | branchFails => cases eq
  | @start call place w w' state live started =>
    rcases state with call' | outcome <;> cases eq
    exact .inl (by simp [unstarted, Statement.invocationCount])
  | @resume call place w w' state resumed =>
    rcases state with call' | outcome <;> cases eq
    have := (Call.resume_inl resumed).1
    exact .inr ⟨rfl, by simp only [stepsLeft, queued, woken, Bool.toNat_false]; omega⟩
  | elements inner ih => exact ih eq
  | wait first ih =>
    cases eq
    have noMore := ih rfl
    simp only [NoMore, unstarted, stepsLeft, queued, woken] at *
    omega
  | next first later _ ih =>
    have noMore := ih eq
    simp only [NoMore, unstarted, stepsLeft, queued, Statement.invocationCounts,
      Statement.branchCounts] at *
    omega
  | branches inner ih =>
    have noMore := ih eq
    simp only [NoMore, queued_branches, unstarted_branches, stepsLeft_branches] at noMore
    exact noMore
  | rest idle =>
    obtain ⟨rfl, live⟩ := ofBranches_waiting eq.symm
    obtain ⟨rfl, rfl⟩ := idle live
    exact .inr ⟨rfl, .inr ⟨rfl, Nat.le_refl _⟩⟩
  | branchWaits first later first_ih later_ih =>
    exact (later_ih eq).trans_fewer (NoMore.set first.found (first_ih rfl))
  | branchWaitsLast first calm ih =>
    obtain ⟨rfl, -⟩ := ofBranches_waiting eq.symm
    exact (NoMore.set first.found (ih rfl)).noMore
  | branchOk first later _ ih => exact (ih eq).trans_fewer fewer_set_ended

section

variable (instant : Nat)

theorem unstarted_wake (t : Task) : (t.wake instant).unstarted = t.unstarted := by
  induction t with
  | ended | fresh | calling => rfl
  | sequence current index rest ih => rw [wake, unstarted, unstarted, ih]
  | block branches queue handedBack ih =>
    rw [wake, unstarted, unstarted, wakeAll_eq_map, sums_unstarted.map branches ih]

theorem stepsLeft_wake (t : Task) : (t.wake instant).stepsLeft = t.stepsLeft := by
  induction t with
  | ended | fresh | calling => rfl
  | sequence current index rest ih => exact ih
  | block branches queue handedBack ih =>
    rw [wake, stepsLeft, stepsLeft, wakeAll_eq_map, sums_stepsLeft.map branches ih]

end

theorem less_set_wake {branches : List Task} {index instant : Nat} {old task : Task}
    (found : branches[index]? = some old) (less : task.Less old) (queue queue' : List Nat)
    (before after : Bool) :
    (block ((branches.map (wake instant)).set index task) queue' after).Less
      (block branches queue before) := by
  have woken : (branches.map (wake instant))[index]? = some (old.wake instant) := by
    rw [List.getElem?_map, found, Option.map_some]
  have unstarted := sums_unstarted.set woken task
  have stepsLeft := sums_stepsLeft.set woken task
  rw [sums_unstarted.map branches fun t _ => unstarted_wake instant t, unstarted_wake] at unstarted
  rw [sums_stepsLeft.map branches fun t _ => stepsLeft_wake instant t, stepsLeft_wake] at stepsLeft
  simp only [Less, Task.unstarted, Task.stepsLeft] at *
  omega

theorem stepsLeft_le_of_mem {branches : List Task} {t : Task} (mem : t ∈ branches) :
    t.stepsLeft ≤ stepsLeftAll branches := by
  induction branches with
  | nil => cases mem
  | cons head rest ih =>
    rw [stepsLeftAll]
    rcases List.mem_cons.1 mem with rfl | mem
    · exact Nat.le_add_right _ _
    · exact Nat.le_trans (ih mem) (Nat.le_add_left _ _)

theorem live_of_due (t : Task) {instant : Nat} (due : (t.dueAt instant).isSome) : 0 < t.stepsLeft := by
  induction t with
  | ended | fresh => simp [dueAt] at due
  | calling call => simp [stepsLeft]
  | sequence current index rest ih => exact ih due
  | block branches queue handedBack ih =>
    obtain ⟨serial, due⟩ := Option.isSome_iff_exists.1 due
    obtain ⟨t, mem, found⟩ := anyDueAt_some due
    exact Nat.lt_of_lt_of_le (ih t mem found) (stepsLeft_le_of_mem mem)

/-- A task that a timer has woken leaves less work if it is polled and waits. -/
theorem Polls.less {t new : Task} (due : (t.dueAt w.clock).isSome)
    (h : Polls setting (t.wake w.clock) place w w' (.waiting new)) : new.Less t := by
  induction t generalizing place w w' new with
  | ended | fresh => simp [dueAt] at due
  | calling call =>
    rw [wake] at h
    generalize eq : Progress.waiting new = progress at h
    cases h with | @resume _ _ _ _ state resumed
    rcases state with call' | outcome <;> cases eq
    obtain ⟨serial, due⟩ := Option.isSome_iff_exists.1 due
    have := (Call.resume_inl resumed).2 serial due
    exact .inr ⟨rfl, by simp only [stepsLeft]; omega⟩
  | sequence current index rest ih =>
    rw [wake] at h
    cases h with
    | wait first =>
      have := ih due first
      simp only [Less, unstarted, stepsLeft] at *
      omega
    | next first later =>
      have live := live_of_due current due
      have noMore := later.noMore
      simp only [NoMore, Less, unstarted, stepsLeft, Statement.invocationCounts] at *
      omega
  | block branches queue handedBack ih =>
    rw [wake] at h
    obtain ⟨serial, due⟩ := Option.isSome_iff_exists.1 due
    obtain ⟨t, mem, found⟩ := anyDueAt_some due
    obtain ⟨i, here⟩ := List.mem_iff_getElem?.1 mem
    have filled : queueAt w.clock branches ≠ [] := List.ne_nil_of_mem (mem_queueAt.2 ⟨t, here, found⟩)
    obtain ⟨index, others, first⟩ := List.exists_cons_of_ne_nil filled
    obtain ⟨old, at_index, oldDue⟩ := mem_queueAt.1 (first ▸ List.mem_cons_self)
    have at_woken : (branches.map (wake w.clock))[index]? = some (old.wake w.clock) := by
      rw [List.getElem?_map, at_index, Option.map_some]
    have head : (branches.map (wake w.clock)).getD index .ended = old.wake w.clock := by
      rw [List.getD_eq_getElem?_getD, at_woken, Option.getD_some]
    rw [first, wakeAll_eq_map] at h
    have gone : Task.ended.Less old := by
      have := live_of_due old oldDue
      simp only [Less, unstarted, stepsLeft]
      omega
    generalize eq : Progress.waiting new = progress at h
    cases h with
    | rest idle => cases (idle (ofBranches_waiting eq.symm).2).1
    | branchWaits polled later =>
      subst eq
      have less := ih old (List.mem_of_getElem? at_index) oldDue (head ▸ polled)
      exact later.noMore.trans_less (less_set_wake at_index less _ _ _ _)
    | branchWaitsLast polled calm =>
      obtain ⟨rfl, -⟩ := ofBranches_waiting eq.symm
      exact less_set_wake at_index (ih old (List.mem_of_getElem? at_index) oldDue (head ▸ polled)) _ _ _ _
    | branchOk polled later =>
      subst eq
      exact later.noMore.trans_less (less_set_wake at_index gone _ _ _ _)
    | branchFails => cases eq

end Task

end FlowTree

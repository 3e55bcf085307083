import FlowTree.Run.Schedule
import Mathlib.Data.List.Forall2

/-! What a poll leaves. A branch that is not in the queue of its block rests: it waits for timers only. A
task that waits and does not ask to be polled again rests as a whole. -/

set_option autoImplicit false

namespace FlowTree

namespace Task

/-- A task with nothing to poll, in calls that have a property. -/
inductive Rests (p : Call → Prop) : Task → Prop where
  | calling {call : Call} (holds : p call) : Rests p (.calling call)
  | sequence {current : Task} {index : Nat} {rest : List Statement} (first : Rests p current) :
    Rests p (.sequence current index rest)
  | block {branches : List Task} {handedBack : Bool}
    (each : ∀ b ∈ branches, b.hasEnded = false → Rests p b)
    (live : ∃ b ∈ branches, b.hasEnded = false) : Rests p (.block branches [] handedBack)

/-- A task of which all that is not to be polled rests, and nothing is to be polled twice. -/
inductive Poised (p : Call → Prop) : Task → Prop where
  | ended : Poised p .ended
  | fresh (statement : Statement) : Poised p (.fresh statement)
  | calling (call : Call) : Poised p (.calling call)
  | sequence {current : Task} {index : Nat} {rest : List Statement} (first : Poised p current) :
    Poised p (.sequence current index rest)
  | block {branches : List Task} {queue : List Nat} {handedBack : Bool}
    (apart : queue.Nodup) (live : ∀ i ∈ queue, (branches.getD i .ended).hasEnded = false)
    (queued : ∀ i ∈ queue, Poised p (branches.getD i .ended))
    (others : ∀ i b, branches[i]? = some b → i ∉ queue → b.hasEnded = false → Rests p b) :
    Poised p (.block branches queue handedBack)

mutual

/-- Whether all queues are empty, and nothing is left that is to start now. -/
def quiet : Task → Bool
  | .ended | .calling _ => true
  | .fresh _ => false
  | .sequence current _ _ => quiet current
  | .block branches queue _ => queue.isEmpty && quietAll branches

def quietAll : List Task → Bool
  | [] => true
  | task :: rest => quiet task && quietAll rest

end

/-- What a task is between two polls. -/
structure Paused (p : Call → Prop) (task : Task) : Prop where
  poised : task.Poised p
  calm : task.quiet = true → task.Rests p
  asleep : task.woken = false → task.quiet = true

variable {p q : Call → Prop} {task : Task} {instant : Nat}

theorem Rests.poised (rests : task.Rests p) : task.Poised p := by
  induction rests with
  | calling => exact .calling _
  | sequence _ ih => exact .sequence ih
  | block each =>
    exact .block .nil (fun i mem => absurd mem List.not_mem_nil)
      (fun i mem => absurd mem List.not_mem_nil)
      fun i b at_i _ active => each b (List.mem_of_getElem? at_i) active

theorem Rests.hasEnded (rests : task.Rests p) : task.hasEnded = false := by
  cases rests <;> rfl

theorem Rests.imp (weaker : ∀ call, p call → q call) (rests : task.Rests p) : task.Rests q := by
  induction rests with
  | calling holds => exact .calling (weaker _ holds)
  | sequence _ ih => exact .sequence ih
  | block _ live ih => exact .block ih live

theorem Poised.imp (weaker : ∀ call, p call → q call) (poised : task.Poised p) : task.Poised q := by
  induction poised with
  | ended => exact .ended
  | fresh s => exact .fresh s
  | calling call => exact .calling call
  | sequence _ ih => exact .sequence ih
  | block apart live _ others ih =>
    exact .block apart live ih fun i b at_i idle active => (others i b at_i idle active).imp weaker

theorem quietAll_iff {branches : List Task} :
    quietAll branches = true ↔ ∀ b ∈ branches, b.quiet = true := by
  induction branches with
  | nil => exact iff_of_true rfl nofun
  | cons b rest ih => rw [quietAll, Bool.and_eq_true, ih, List.forall_mem_cons]

theorem Rests.quiet (rests : task.Rests p) : task.quiet = true := by
  induction rests with
  | calling => rfl
  | sequence _ ih => exact ih
  | block _ _ ih =>
    refine quietAll_iff.2 fun b mem => ?_
    cases active : b.hasEnded with
    | false => exact ih b mem active
    | true => cases b <;> first | rfl | cases active

theorem Rests.paused (rests : task.Rests p) : task.Paused p :=
  ⟨rests.poised, fun _ => rests, fun _ => rests.quiet⟩

theorem Paused.rests (paused : task.Paused p) (asleep : task.woken = false) : task.Rests p :=
  paused.calm (paused.asleep asleep)

theorem Paused.hasEnded (paused : task.Paused p) : task.hasEnded = false := by
  cases gone : task.hasEnded with
  | false => rfl
  | true =>
    have quiet : task.quiet = true := by cases task <;> first | rfl | cases gone
    exact gone.symm.trans (paused.calm quiet).hasEnded

theorem Paused.imp (weaker : ∀ call, p call → q call) (paused : task.Paused p) : task.Paused q :=
  ⟨paused.poised.imp weaker, fun quiet => (paused.calm quiet).imp weaker, paused.asleep⟩

theorem paused_fresh (p : Call → Prop) (s : Statement) : (fresh s).Paused p := ⟨.fresh s, nofun, nofun⟩

theorem anyDueAt_none {branches : List Task} (idle : anyDueAt instant branches = none) :
    ∀ b ∈ branches, b.dueAt instant = none := by
  induction branches with
  | nil => nofun
  | cons head rest ih =>
    rw [anyDueAt] at idle
    cases first : head.dueAt instant with
    | some serial =>
      have found := least_isSome (b := anyDueAt instant rest) (.inl (first ▸ Option.isSome_some))
      rw [idle] at found
      cases found
    | none =>
      rw [first, least] at idle
      exact List.forall_mem_cons.2 ⟨first, ih idle⟩

theorem not_mem_queueAt {branches : List Task} {i : Nat} {b : Task} (at_i : branches[i]? = some b)
    (idle : i ∉ queueAt instant branches) : b.dueAt instant = none := by
  cases due : b.dueAt instant with
  | none => rfl
  | some serial => exact absurd (mem_queueAt.2 ⟨b, at_i, Option.isSome_of_eq_some due⟩) idle

section Congr

open List (Forall₂)

variable {ts us : List Task}

theorem anyDueAt_congr (each : Forall₂ (fun t u : Task => t.dueAt instant = u.dueAt instant) ts us) :
    anyDueAt instant ts = anyDueAt instant us := by
  induction each with
  | nil => rfl
  | cons first _ ih => rw [anyDueAt, anyDueAt, first, ih]

theorem pending_congr (each : Forall₂ (fun t u : Task => t.hasEnded = u.hasEnded) ts us) :
    pending ts = pending us := by
  induction each with
  | nil => rfl
  | cons first _ ih =>
    unfold pending at ih ⊢
    rw [List.filter_cons, List.filter_cons, first]
    split
    · rw [List.length_cons, List.length_cons, ih]
    · exact ih

theorem all_hasEnded_congr (each : Forall₂ (fun t u : Task => t.hasEnded = u.hasEnded) ts us) :
    ts.all Task.hasEnded = us.all Task.hasEnded := by
  induction each with
  | nil => rfl
  | cons first _ ih => rw [List.all_cons, List.all_cons, first, ih]

theorem nextInstants_congr (each : Forall₂ (fun t u : Task => t.nextInstant = u.nextInstant) ts us) :
    nextInstants ts = nextInstants us := by
  induction each with
  | nil => rfl
  | cons first _ ih => rw [nextInstants, nextInstants, first, ih]

theorem queueAt_congr (each : Forall₂ (fun t u : Task => t.dueAt instant = u.dueAt instant) ts us) :
    queueAt instant ts = queueAt instant us := by
  have entries (index : Nat) :
      (ts.zipIdx index).filterMap (fun entry => (entry.1.dueAt instant).map fun serial => (serial, entry.2)) =
        (us.zipIdx index).filterMap fun entry =>
          (entry.1.dueAt instant).map fun serial => (serial, entry.2) := by
    induction each generalizing index with
    | nil => rfl
    | cons first _ ih => simp only [List.zipIdx_cons, List.filterMap_cons, ih, first]
  exact congrArg (fun due => (orderByKey Prod.fst due).map Prod.snd) (entries 0)

end Congr

/-- Timers that do not fire change nothing in a task that rests. -/
theorem Rests.wake_eq (rests : task.Rests p) (idle : task.dueAt instant = none) :
    task.wake instant = task := by
  induction rests with
  | calling => rfl
  | sequence _ ih => rw [wake, ih idle]
  | @block branches handedBack each _ ih =>
    have none := anyDueAt_none idle
    have empty : queueAt instant branches = [] := by
      refine List.eq_nil_iff_forall_not_mem.2 fun i mem => ?_
      obtain ⟨b, at_i, due⟩ := mem_queueAt.1 mem
      rw [none b (List.mem_of_getElem? at_i)] at due
      cases due
    rw [wake, empty, wakeAll_eq_map]
    congr 1
    refine (List.map_congr_left fun b mem => ?_).trans (List.map_id branches)
    cases active : b.hasEnded with
    | false => exact ih b mem active (none b mem)
    | true => cases b <;> first | rfl | cases active

/-- Time moves on for a task that rests. -/
theorem Rests.pass (later : ∀ call, p call → call.dueAt instant = none → q call)
    (rests : task.Rests p) (idle : task.dueAt instant = none) : task.Rests q := by
  induction rests with
  | calling holds => exact .calling (later _ holds idle)
  | sequence _ ih => exact .sequence (ih idle)
  | block _ live ih =>
    exact .block (fun b mem active => ih b mem active (anyDueAt_none idle b mem)) live

theorem hasEnded_wake (task : Task) : (task.wake instant).hasEnded = task.hasEnded := by
  cases task <;> rfl

/-- Timers put into the queues what they fire for. -/
theorem Rests.wake (later : ∀ call, p call → call.dueAt instant = none → q call)
    (rests : task.Rests p) : (task.wake instant).Poised q := by
  induction rests with
  | calling => exact .calling _
  | sequence _ ih => exact .sequence ih
  | @block branches handedBack each _ ih =>
    rw [Task.wake, wakeAll_eq_map]
    have woken {i : Nat} (mem : i ∈ queueAt instant branches) : ∃ b ∈ branches,
        b.hasEnded = false ∧ (branches.map (Task.wake instant)).getD i .ended = b.wake instant := by
      obtain ⟨b, at_i, due⟩ := mem_queueAt.1 mem
      refine ⟨b, List.mem_of_getElem? at_i, Bool.eq_false_iff.2 fun gone => ?_, ?_⟩
      · cases b with
        | ended => cases due
        | _ => cases gone
      · rw [List.getD_eq_getElem?_getD, List.getElem?_map, at_i, Option.map_some, Option.getD_some]
    refine .block (nodup_queueAt instant branches) (fun i mem => ?_) (fun i mem => ?_)
      fun i b at_i idle active => ?_
    · obtain ⟨b, -, active, eq⟩ := woken mem
      rw [eq, hasEnded_wake]
      exact active
    · obtain ⟨b, here, active, eq⟩ := woken mem
      rw [eq]
      exact ih b here active
    · rw [List.getElem?_map] at at_i
      obtain ⟨b, found, rfl⟩ := Option.map_eq_some_iff.1 at_i
      rw [hasEnded_wake] at active
      have rests := each b (List.mem_of_getElem? found) active
      have due := not_mem_queueAt found idle
      rw [rests.wake_eq due]
      exact rests.pass later due

section

variable {branches : List Task} {index i : Nat}

theorem getD_set_of_ne (apart : index ≠ i) (task : Task) :
    (branches.set index task).getD i .ended = branches.getD i .ended := by
  rw [List.getD_eq_getElem?_getD, List.getElem?_set_ne apart, ← List.getD_eq_getElem?_getD]

theorem getElem?_of_live (live : (branches.getD i .ended).hasEnded = false) :
    branches[i]? = some (branches.getD i .ended) := by
  rw [List.getD_eq_getElem?_getD] at live ⊢
  cases found : branches[i]? with
  | none =>
    rw [found] at live
    cases live
  | some b => rfl

theorem getD_set_self (live : (branches.getD index .ended).hasEnded = false) (task : Task) :
    (branches.set index task).getD index .ended = task := by
  rw [List.getD_eq_getElem?_getD, List.getElem?_set_self', getElem?_of_live live]
  rfl

end

theorem mem_requeue {index i : Nat} {queue : List Nat} :
    i ∈ requeue task index queue ↔ i ∈ queue ∨ task.woken = true ∧ i = index := by
  unfold requeue
  cases task.woken <;> simp

theorem nodup_requeue {index : Nat} {queue : List Nat} (task : Task) (apart : queue.Nodup)
    (once : index ∉ queue) : (requeue task index queue).Nodup := by
  unfold requeue
  split
  · refine List.nodup_append.2 ⟨apart, List.pairwise_singleton _ index, fun i mem j last => ?_⟩
    rw [List.mem_singleton.1 last]
    exact fun eq => once (eq ▸ mem)
  · exact apart

section

variable {branches : List Task} {index : Nat} {queue : List Nat} {before : Bool}
  (handedBack : Bool)

theorem Poised.rests_of_calm (poised : (Task.block branches queue before).Poised p) (calm : queue = [])
    (live : branches.all Task.hasEnded = false) : (Task.block branches queue handedBack).Rests p := by
  subst calm
  cases poised with
  | block _ _ _ others =>
    refine .block (fun b mem active => ?_) ?_
    · obtain ⟨i, at_i⟩ := List.mem_iff_getElem?.1 mem
      exact others i b at_i List.not_mem_nil active
    · simpa using live

theorem Poised.branch (poised : (Task.block branches queue before).Poised p) (index : Nat) :
    (branches.getD index .ended).Poised p := by
  rw [List.getD_eq_getElem?_getD]
  cases at_i : branches[index]? with
  | none => exact .ended
  | some b =>
    cases active : b.hasEnded with
    | true =>
      cases b <;> first | exact .ended | cases active
    | false =>
      cases poised with
      | block _ _ queued others =>
        by_cases mem : index ∈ queue
        · have inner := queued index mem
          rwa [List.getD_eq_getElem?_getD, at_i] at inner
        · exact (others index b at_i mem active).poised

/-- Whether a block has handed back makes no difference to what is to be polled. -/
theorem Poised.again (poised : (Task.block branches queue before).Poised p) :
    (Task.block branches queue handedBack).Poised p := by
  cases poised with
  | block apart live queued others => exact .block apart live queued others

/-- A block of which a branch goes on stays as it is but for this branch. -/
theorem Poised.stays (poised : (Task.block branches (index :: queue) before).Poised p)
    (inner : task.Poised p) (active : task.hasEnded = false) :
    (Task.block (branches.set index task) (index :: queue) handedBack).Poised p := by
  cases poised with
  | block apart live queued others =>
    have own : (branches.set index task).getD index .ended = task :=
      getD_set_self (live index List.mem_cons_self) task
    have same {i : Nat} (mem : i ∈ queue) :
        (branches.set index task).getD i .ended = branches.getD i .ended :=
      getD_set_of_ne (fun (eq : index = i) => (List.nodup_cons.1 apart).1 (eq ▸ mem)) _
    refine .block apart (fun i mem => ?_) (fun i mem => ?_) fun i b at_i idle active => ?_
    · rcases List.mem_cons.1 mem with rfl | mem
      · rw [own]
        exact active
      · rw [same mem]
        exact live i (List.mem_cons_of_mem _ mem)
    · rcases List.mem_cons.1 mem with rfl | mem
      · rw [own]
        exact inner
      · rw [same mem]
        exact queued i (List.mem_cons_of_mem _ mem)
    · rw [List.getElem?_set_ne fun eq => idle (List.mem_cons.2 (.inl eq.symm))] at at_i
      exact others i b at_i idle active

theorem Poised.nothing_left (poised : (Task.block branches queue before).Poised p)
    (gone : branches.all Task.hasEnded = true) : queue = [] := by
  cases poised with
  | block _ live =>
    refine List.eq_nil_iff_forall_not_mem.2 fun i mem => ?_
    have active := live i mem
    have ended := List.all_eq_true.1 gone _ (List.mem_of_getElem? (getElem?_of_live active))
    exact Bool.false_ne_true (active.symm.trans ended)

/-- A branch that has not ended is another one than that which has. -/
theorem of_set_ended {i : Nat} {b : Task} (at_i : (branches.set index .ended)[i]? = some b)
    (active : b.hasEnded = false) : index ≠ i ∧ branches[i]? = some b := by
  by_cases eq : index = i
  · subst eq
    rw [List.getElem?_set_self'] at at_i
    obtain ⟨old, -, gone⟩ := Option.map_eq_some_iff.1 at_i
    rw [← gone] at active
    cases active
  · rw [List.getElem?_set_ne eq] at at_i
    exact ⟨eq, at_i⟩

theorem Poised.ends (poised : (Task.block branches (index :: queue) before).Poised p) :
    (Task.block (branches.set index .ended) queue handedBack).Poised p := by
  cases poised with
  | block apart live queued others =>
    obtain ⟨once, apart⟩ := List.nodup_cons.1 apart
    have same {i : Nat} (mem : i ∈ queue) :
        (branches.set index .ended).getD i .ended = branches.getD i .ended :=
      getD_set_of_ne (fun (eq : index = i) => once (eq ▸ mem)) _
    refine .block apart (fun i mem => ?_) (fun i mem => ?_) fun i b at_i idle active => ?_
    · rw [same mem]
      exact live i (List.mem_cons_of_mem _ mem)
    · rw [same mem]
      exact queued i (List.mem_cons_of_mem _ mem)
    · obtain ⟨other, at_i⟩ := of_set_ended at_i active
      refine others i b at_i (fun mem => ?_) active
      rcases List.mem_cons.1 mem with rfl | mem
      · exact other rfl
      · exact idle mem

theorem Poised.replace (poised : (Task.block branches (index :: queue) before).Poised p)
    (paused : task.Paused p) :
    (Task.block (branches.set index task) (requeue task index queue) handedBack).Poised p := by
  cases poised with
  | block apart live queued others =>
    obtain ⟨once, apart⟩ := List.nodup_cons.1 apart
    have own : (branches.set index task).getD index .ended = task :=
      getD_set_self (live index List.mem_cons_self) task
    have same {i : Nat} (mem : i ∈ queue) :
        (branches.set index task).getD i .ended = branches.getD i .ended :=
      getD_set_of_ne (fun (eq : index = i) => once (eq ▸ mem)) _
    refine .block (nodup_requeue task apart once) (fun i mem => ?_) (fun i mem => ?_)
      fun i b at_i idle active => ?_
    · rcases mem_requeue.1 mem with mem | ⟨-, rfl⟩
      · rw [same mem]
        exact live i (List.mem_cons_of_mem _ mem)
      · rw [own]
        exact paused.hasEnded
    · rcases mem_requeue.1 mem with mem | ⟨-, rfl⟩
      · rw [same mem]
        exact queued i (List.mem_cons_of_mem _ mem)
      · rw [own]
        exact paused.poised
    · by_cases eq : index = i
      · subst eq
        rw [List.getElem?_set_self'] at at_i
        obtain ⟨-, -, rfl⟩ := Option.map_eq_some_iff.1 at_i
        exact paused.rests (Bool.eq_false_iff.2 fun woken => idle (mem_requeue.2 (.inr ⟨woken, rfl⟩)))
      · rw [List.getElem?_set_ne eq] at at_i
        refine others i b at_i (fun mem => ?_) active
        rcases List.mem_cons.1 mem with rfl | mem
        · exact eq rfl
        · exact idle (mem_requeue.2 (.inl mem))

end

/-- A branch of a block that has not started. -/
theorem getD_fresh (parts : List Statement) (i : Nat) :
    (parts.map Task.fresh).getD i .ended = .ended ∧ parts[i]? = none ∨
      ∃ s, (parts.map Task.fresh).getD i .ended = .fresh s ∧ parts[i]? = some s := by
  rw [List.getD_eq_getElem?_getD, List.getElem?_map]
  cases parts[i]? with
  | none => exact .inl ⟨rfl, rfl⟩
  | some s => exact .inr ⟨s, rfl, rfl⟩

theorem poised_branches (p : Call → Prop) (branches : List Statement) (handedBack : Bool) :
    (block (branches.map .fresh) (List.range branches.length) handedBack).Poised p := by
  have fresh {i : Nat} (mem : i ∈ List.range branches.length) :
      ∃ s, (branches.map Task.fresh).getD i .ended = .fresh s := by
    rcases getD_fresh branches i with ⟨-, none⟩ | ⟨s, eq, -⟩
    · exact absurd (List.mem_range.1 mem) (Nat.not_lt.2 (List.getElem?_eq_none_iff.1 none))
    · exact ⟨s, eq⟩
  refine .block List.nodup_range (fun i mem => ?_) (fun i mem => ?_) fun i b at_i idle _ => ?_
  · obtain ⟨s, eq⟩ := fresh mem
    rw [eq]
    rfl
  · obtain ⟨s, eq⟩ := fresh mem
    rw [eq]
    exact .fresh s
  · refine absurd (List.mem_range.2 ?_) idle
    simpa using (List.getElem?_eq_some_iff.1 at_i).1

variable {setting : Setting} {now : World → Prop} {place : Position} {w w' : World}

/-- In worlds of a kind, polls lead to such worlds, and to calls with a property. -/
structure Kept (setting : Setting) (p : Call → Prop) (now : World → Prop) : Prop where
  world : ∀ {t : Task} {place w w' progress}, Polls setting t place w w' progress → t.Poised p →
    now w → now w'
  started : ∀ {place w w'} {invocation : Invocation} {call : Call}, now w →
    Call.start setting place invocation w = (w', .inl call) → p call
  resumed : ∀ {w w'} {call next : Call}, now w → call.resume setting w = (w', .inl next) → p next

/-- A task that is polled and waits rests, except for what is to be polled again. -/
theorem Polls.paused (kept : Kept setting p now) {new : Task}
    (h : Polls setting task place w w' (.waiting new)) (poised : task.Poised p) (here : now w) :
    new.Paused p := by
  generalize eq : Progress.waiting new = progress at h
  induction h generalizing new with
  | ended | noop | skip | nothing | stop | last | branchFails => cases eq
  | @start _ _ _ _ state live started =>
    rcases state with call | outcome <;> cases eq
    exact (Rests.calling (kept.started here started)).paused
  | @resume _ _ _ _ state resumed =>
    rcases state with call | outcome <;> cases eq
    exact (Rests.calling (kept.resumed here resumed)).paused
  | elements _ ih => exact ih (.sequence (.fresh _)) here eq
  | wait _ ih =>
    cases poised with
    | sequence inner =>
      cases eq
      have paused := ih inner here rfl
      exact ⟨.sequence paused.poised, fun quiet => .sequence (paused.calm quiet), paused.asleep⟩
  | next first later _ ih =>
    cases poised with
    | sequence inner => exact ih (.sequence (.fresh _)) (kept.world first inner here) eq
  | branches _ ih => exact ih (poised_branches p _ _) here eq
  | @rest _ _ _ handedBack _ _ idle =>
    obtain ⟨rfl, live⟩ := ofBranches_waiting eq.symm
    exact (poised.rests_of_calm handedBack (idle live).1 live).paused
  | @branchWaits _ index _ _ _ _ _ _ _ _ first later first_ih later_ih =>
    have inner := poised.branch index
    exact later_ih (poised.replace _ (first_ih inner here rfl)) (kept.world first inner here) eq
  | @branchWaitsLast _ _ _ _ handedBack _ _ _ _ first calm ih =>
    obtain ⟨rfl, live⟩ := ofBranches_waiting eq.symm
    have left := poised.replace handedBack (ih (poised.branch _) here rfl)
    have rests (none : requeue _ _ _ = []) := left.rests_of_calm handedBack none live
    refine ⟨left, fun quiet => rests ?_, fun idle => (rests (calm idle)).quiet⟩
    rw [Task.quiet, Bool.and_eq_true, List.isEmpty_iff] at quiet
    exact quiet.1
  | branchOk first later first_ih later_ih =>
    exact later_ih (poised.ends _) (kept.world first (poised.branch _) here) eq

end Task

end FlowTree

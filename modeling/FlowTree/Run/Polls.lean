import FlowTree.Run.Poll

/-! What a poll does. A poll reaches into a task as deep as it goes, and a task that goes on is no deeper
than before, so that the bound on the depth of a poll makes no difference. All that a poll can do is said
once, as a relation with a rule for each step. -/

set_option autoImplicit false

namespace FlowTree

namespace Statement

theorem depths_le {statements : List Statement} {n : Nat} :
    depths statements ≤ n ↔ ∀ s ∈ statements, s.depth ≤ n := by
  induction statements with
  | nil => simp [depths]
  | cons s rest ih => rw [depths, Nat.max_le, ih, List.forall_mem_cons]

end Statement

namespace Task

theorem depths_le {tasks : List Task} {n : Nat} : depths tasks ≤ n ↔ ∀ t ∈ tasks, t.depth ≤ n := by
  induction tasks with
  | nil => simp [depths]
  | cons t rest ih => rw [depths, Nat.max_le, ih, List.forall_mem_cons]

def Next.branches : Next → List Task
  | .pending branches _ _ | .ready branches _ _ => branches

/-- Tasks up to a depth go on in the same way, to tasks that are no deeper. -/
structure Agree (n : Nat) (child child' : Task → Position → World → World × Progress) : Prop where
  same : ∀ t, t.depth ≤ n → ∀ place w, child t place w = child' t place w
  kept : ∀ t, t.depth ≤ n → ∀ place w w' new, child t place w = (w', .waiting new) → new.depth ≤ n

section

variable {setting : Setting} {n : Nat} {child child' : Task → Position → World → World × Progress}
  {place : Position}

theorem depth_getD {branches : List Task} (bound : ∀ b ∈ branches, b.depth ≤ n)
    (index : Nat) : (branches.getD index .ended).depth ≤ n := by
  rw [List.getD_eq_getElem?_getD]
  cases found : branches[index]? with
  | none => exact Nat.zero_le n
  | some b => exact bound b (List.mem_of_getElem? found)

theorem depth_set {branches : List Task} (bound : ∀ b ∈ branches, b.depth ≤ n) (index : Nat)
    {new : Task} (le : new.depth ≤ n) : ∀ b ∈ branches.set index new, b.depth ≤ n := by
  intro b mem
  rcases List.mem_or_eq_of_mem_set mem with mem | rfl
  · exact bound b mem
  · exact le

theorem Agree.pollNext (agree : Agree n child child') (left : Nat) (yielded : Bool)
    {branches : List Task} (bound : ∀ b ∈ branches, b.depth ≤ n) (queue : List Nat) (w : World) :
    pollNext setting child place left yielded branches queue w =
        Task.pollNext setting child' place left yielded branches queue w ∧
      ∀ b ∈ (Task.pollNext setting child place left yielded branches queue w).2.branches,
        b.depth ≤ n := by
  induction left generalizing yielded branches queue w with
  | zero => exact ⟨rfl, bound⟩
  | succ left ih =>
    rw [Task.pollNext, Task.pollNext]
    rcases dropEnded branches queue with _ | ⟨index, queue⟩
    · exact ⟨rfl, bound⟩
    · have le := depth_getD bound index
      simp only
      rw [← agree.same _ le]
      rcases went : child (branches.getD index .ended) (place ++ [index]) w with ⟨w', task | outcome⟩
      · have bound' := depth_set bound index (agree.kept _ le _ _ _ _ went)
        simp only
        split
        · exact ⟨rfl, bound'⟩
        · exact ih _ bound' _ _
      · exact ⟨rfl, depth_set bound index (Nat.zero_le n)⟩

theorem depth_ofBranches {branches : List Task} (bound : ∀ b ∈ branches, b.depth ≤ n)
    {queue : List Nat} {handedBack : Bool} {new : Task}
    (waits : Progress.ofBranches branches queue handedBack = .waiting new) : new.depth ≤ n + 1 := by
  unfold Progress.ofBranches at waits
  split at waits
  · cases waits
  · cases waits
    exact Nat.succ_le_succ (depths_le.2 bound)

theorem Agree.pollAll (agree : Agree n child child') (left : Nat)
    {branches : List Task} (bound : ∀ b ∈ branches, b.depth ≤ n) (queue : List Nat) (w : World) :
    pollAll setting child place left branches queue w =
        Task.pollAll setting child' place left branches queue w ∧
      ∀ w' new, Task.pollAll setting child place left branches queue w = (w', .waiting new) →
        new.depth ≤ n + 1 := by
  induction left generalizing branches queue w with
  | zero => exact ⟨rfl, nofun⟩
  | succ left ih =>
    obtain ⟨same, bound'⟩ : Task.pollNext setting child place (left + 1) false branches queue w =
        Task.pollNext setting child' place (left + 1) false branches queue w ∧ _ :=
      agree.pollNext (left + 1) false bound queue w
    rw [Task.pollAll, Task.pollAll, ← same]
    rcases went : Task.pollNext setting child place (left + 1) false branches queue w with
      ⟨mid, ⟨branches', queue', handedBack⟩ | ⟨branches', queue', _ | failure⟩⟩
    · rw [went] at bound'
      exact ⟨rfl, fun w' new waits => depth_ofBranches bound' (Prod.ext_iff.1 waits).2⟩
    · exact ⟨rfl, fun w' new waits => nomatch (Prod.ext_iff.1 waits).2⟩
    · rw [went] at bound'
      exact ih bound' queue' mid

theorem Agree.pollElements (agree : Agree n child child') {rest : List Statement}
    (bound : ∀ s ∈ rest, s.depth ≤ n) (index : Nat) (w : World) :
    pollElements child place rest index w = Task.pollElements child' place rest index w ∧
      ∀ w' new, Task.pollElements child place rest index w = (w', .waiting new) →
        new.depth ≤ n + 1 := by
  induction rest generalizing index w with
  | nil => exact ⟨rfl, nofun⟩
  | cons s rest ih =>
    have le : (fresh s).depth ≤ n := bound s List.mem_cons_self
    have tail := fun s mem => bound s (List.mem_cons_of_mem _ mem)
    rw [Task.pollElements, Task.pollElements, ← agree.same _ le]
    rcases went : child (.fresh s) (place ++ [index]) w with ⟨mid, task | failure | _⟩
    · refine ⟨rfl, ?_⟩
      rintro w' new ⟨⟩
      have less := agree.kept _ le _ _ _ _ went
      exact Nat.succ_le_succ (Nat.max_le.2 ⟨less, Statement.depths_le.2 tail⟩)
    · exact ⟨rfl, nofun⟩
    · exact ih tail (index + 1) mid

theorem Agree.pollFresh (agree : Agree n child child') {s : Statement}
    (le : s.depth ≤ n + 1) (w : World) :
    pollFresh setting child place s w = Task.pollFresh setting child' place s w ∧
      ∀ w' new, Task.pollFresh setting child place s w = (w', .waiting new) → new.depth ≤ n + 1 := by
  cases s with
  | noop => exact ⟨rfl, nofun⟩
  | invocation call =>
    refine ⟨rfl, fun w' new waits => ?_⟩
    rw [Task.pollFresh] at waits
    split at waits
    · cases waits
    · rcases started : Call.start setting place call w with ⟨mid, call | outcome⟩ <;>
        rw [started] at waits <;> cases waits
      exact Nat.le_add_left 1 n
  | sequence elements =>
    exact agree.pollElements (Statement.depths_le.1 (Nat.le_of_succ_le_succ le)) 0 w
  | parallel branches =>
    refine agree.pollAll _ (fun b mem => ?_) _ w
    obtain ⟨s, here, rfl⟩ := List.mem_map.1 mem
    exact Statement.depths_le.1 (Nat.le_of_succ_le_succ le) s here

theorem Agree.pollWith (agree : Agree n child child') {t : Task}
    (le : t.depth ≤ n + 1) (w : World) :
    pollWith setting child place t w = Task.pollWith setting child' place t w ∧
      ∀ w' new, Task.pollWith setting child place t w = (w', .waiting new) → new.depth ≤ n + 1 := by
  cases t with
  | ended => exact ⟨rfl, nofun⟩
  | fresh s => exact agree.pollFresh le w
  | calling call =>
    refine ⟨rfl, fun w' new waits => ?_⟩
    rw [Task.pollWith] at waits
    rcases resumed : call.resume setting w with ⟨mid, call | outcome⟩ <;>
      rw [resumed] at waits <;> cases waits
    exact Nat.le_add_left 1 n
  | sequence current index rest =>
    obtain ⟨inner, later⟩ := Nat.max_le.1 (Nat.le_of_succ_le_succ le)
    rw [Task.pollWith, Task.pollWith, ← agree.same _ inner]
    rcases went : child current (place ++ [index]) w with ⟨mid, task | failure | _⟩
    · refine ⟨rfl, ?_⟩
      rintro w' new ⟨⟩
      exact Nat.succ_le_succ (Nat.max_le.2 ⟨agree.kept _ inner _ _ _ _ went, later⟩)
    · exact ⟨rfl, nofun⟩
    · exact agree.pollElements (Statement.depths_le.1 later) (index + 1) mid
  | block branches queue handedBack =>
    exact agree.pollAll _ (depths_le.1 (Nat.le_of_succ_le_succ le)) _ w

end

variable {setting : Setting}

theorem pollAt_agree {n m : Nat} (le : n ≤ m) : Agree n (pollAt setting m) (pollAt setting n) := by
  induction n generalizing m with
  | zero =>
    have nothing (m : Nat) {t : Task} (shallow : t.depth ≤ 0) (place : Position) (w : World) :
        pollAt setting m t place w = (w, .ended (.ok ())) := by
      cases m with
      | zero => rfl
      | succ m =>
        cases t with
        | ended => rfl
        | fresh s => cases s <;> cases shallow
        | _ => cases shallow
    refine ⟨fun t shallow place w => ?_, fun t shallow place w w' new waits => ?_⟩
    · rw [nothing m shallow, nothing 0 shallow]
    · rw [nothing m shallow] at waits
      cases waits
  | succ n ih =>
    obtain ⟨m, rfl⟩ := Nat.exists_eq_add_of_le' le
    have agree : Agree n (pollAt setting (m + n)) (pollAt setting n) := ih (Nat.le_add_left n m)
    exact ⟨fun t shallow _ w => (agree.pollWith shallow w).1,
      fun t shallow _ w => (agree.pollWith shallow w).2⟩

theorem poll_agree (n : Nat) : Agree n (pollAt setting n) (poll setting) where
  same _ shallow := (pollAt_agree shallow).same _ (Nat.le_refl _)
  kept := (pollAt_agree (Nat.le_refl n)).kept

/-- A poll is made of polls of the parts of the task. -/
theorem poll_eq (t : Task) (place : Position) (w : World) :
    poll setting t place w = pollWith setting (poll setting) place t w := by
  have deeper : poll setting t place w = pollWith setting (pollAt setting t.depth) place t w :=
    ((poll_agree (t.depth + 1)).same t (Nat.le_succ _) place w).symm
  rw [deeper]
  exact ((poll_agree t.depth).pollWith (Nat.le_succ _) w).1

theorem poll_depth {t new : Task} {place : Position} {w w' : World}
    (waits : poll setting t place w = (w', .waiting new)) : new.depth ≤ t.depth :=
  (poll_agree t.depth).kept t (Nat.le_refl _) _ _ _ _ waits

-- A block goes on to the next branch in its queue or hands back; it does not when its queue is empty. When
-- it hands back is left open.
inductive Polls (setting : Setting) : Task → Position → World → World → Progress → Prop where
  | ended {place : Position} {w : World} : Polls setting .ended place w w (.ended (.ok ()))
  | noop {place : Position} {w : World} : Polls setting (.fresh .noop) place w w (.ended (.ok ()))
  | skip {call : Invocation} {place : Position} {w : World} (late : w.cancelled = true) :
    Polls setting (.fresh (.invocation call)) place w (w.skip place call.name)
      (.ended (.error .cancelled))
  | start {call : Invocation} {place : Position} {w w' : World} {state : Call ⊕ Outcome}
    (live : w.cancelled = false) (started : Call.start setting place call w = (w', state)) :
    Polls setting (.fresh (.invocation call)) place w w' (.ofCall state)
  | resume {call : Call} {place : Position} {w w' : World} {state : Call ⊕ Outcome}
    (resumed : call.resume setting w = (w', state)) :
    Polls setting (.calling call) place w w' (.ofCall state)
  | nothing {place : Position} {w : World} :
    Polls setting (.fresh (.sequence [])) place w w (.ended (.ok ()))
  | elements {s : Statement} {rest : List Statement} {place : Position} {w w' : World}
    {progress : Progress} (inner : Polls setting (.sequence (.fresh s) 0 rest) place w w' progress) :
    Polls setting (.fresh (.sequence (s :: rest))) place w w' progress
  | wait {current task : Task} {index : Nat} {rest : List Statement} {place : Position} {w w' : World}
    (first : Polls setting current (place ++ [index]) w w' (.waiting task)) :
    Polls setting (.sequence current index rest) place w w' (.waiting (.sequence task index rest))
  | stop {current : Task} {index : Nat} {rest : List Statement} {place : Position} {w w' : World}
    {failure : Failure}
    (first : Polls setting current (place ++ [index]) w w' (.ended (.error failure))) :
    Polls setting (.sequence current index rest) place w w' (.ended (.error failure))
  | last {current : Task} {index : Nat} {place : Position} {w w' : World}
    (first : Polls setting current (place ++ [index]) w w' (.ended (.ok ()))) :
    Polls setting (.sequence current index []) place w w' (.ended (.ok ()))
  | next {current : Task} {index : Nat} {s : Statement} {rest : List Statement} {place : Position}
    {w mid w' : World} {progress : Progress}
    (first : Polls setting current (place ++ [index]) w mid (.ended (.ok ())))
    (later : Polls setting (.sequence (.fresh s) (index + 1) rest) place mid w' progress) :
    Polls setting (.sequence current index (s :: rest)) place w w' progress
  | branches {branches : List Statement} {place : Position} {w w' : World} {progress : Progress}
    (inner : Polls setting (.block (branches.map .fresh) (List.range branches.length) true) place w w'
      progress) :
    Polls setting (.fresh (.parallel branches)) place w w' progress
  | rest {branches : List Task} {queue : List Nat} {before handedBack : Bool} {place : Position}
    {w : World} (idle : branches.all hasEnded = false → queue = [] ∧ handedBack = false) :
    Polls setting (.block branches queue before) place w w (.ofBranches branches queue handedBack)
  | branchWaits {branches : List Task} {index : Nat} {queue : List Nat} {handedBack : Bool} {task : Task}
    {place : Position} {w mid w' : World} {progress : Progress}
    (first : Polls setting (branches.getD index .ended) (place ++ [index]) w mid (.waiting task))
    (later : Polls setting (.block (branches.set index task) (requeue task index queue) true) place mid w'
      progress) :
    Polls setting (.block branches (index :: queue) handedBack) place w w' progress
  | branchWaitsLast {branches : List Task} {index : Nat} {queue : List Nat} {before handedBack : Bool}
    {task : Task} {place : Position} {w w' : World}
    (first : Polls setting (branches.getD index .ended) (place ++ [index]) w w' (.waiting task))
    (calm : handedBack = false → requeue task index queue = []) :
    Polls setting (.block branches (index :: queue) before) place w w'
      (.ofBranches (branches.set index task) (requeue task index queue) handedBack)
  | branchOk {branches : List Task} {index : Nat} {queue : List Nat} {handedBack : Bool}
    {place : Position} {w mid w' : World} {progress : Progress}
    (first : Polls setting (branches.getD index .ended) (place ++ [index]) w mid (.ended (.ok ())))
    (later : Polls setting (.block (branches.set index .ended) queue true) place mid w' progress) :
    Polls setting (.block branches (index :: queue) handedBack) place w w' progress
  | branchFails {branches : List Task} {index : Nat} {queue : List Nat} {handedBack : Bool}
    {place : Position} {w mid w' : World} {failure : Failure} {outcome : Outcome}
    (first : Polls setting (branches.getD index .ended) (place ++ [index]) w mid
      (.ended (.error failure)))
    (collapsed : collapse setting (branches.set index .ended) queue place [failure]
      (observe setting.mode place [] (pending (branches.set index .ended)) failure mid) =
        (w', outcome)) :
    Polls setting (.block branches (index :: queue) handedBack) place w w' (.ended outcome)

section

variable {n : Nat} {place : Position} {w mid w' : World} {progress : Progress}
  {branches branches' : List Task} {queue queue' : List Nat}

/-- Whether a block has handed back makes no difference to its next poll. -/
theorem Polls.again {before : Bool} (h : Polls setting (.block branches queue before) place w w' progress)
    (after : Bool) : Polls setting (.block branches queue after) place w w' progress := by
  cases h with
  | rest idle => exact .rest idle
  | branchWaits first later => exact .branchWaits first later
  | branchWaitsLast first calm => exact .branchWaitsLast first calm
  | branchOk first later => exact .branchOk first later
  | branchFails first collapsed => exact .branchFails first collapsed

/-- What waits after a poll has not ended. -/
theorem Polls.hasEnded {t task : Task} (h : Polls setting t place w w' (.waiting task)) :
    task.hasEnded = false := by
  generalize eq : Progress.waiting task = progress at h
  have block {branches : List Task} {queue : List Nat} {handedBack : Bool}
      (eq : Progress.waiting task = .ofBranches branches queue handedBack) : task.hasEnded = false := by
    unfold Progress.ofBranches at eq
    split at eq <;> cases eq
    rfl
  induction h generalizing task with
  | ended | noop | skip | nothing | stop | last | branchFails => cases eq
  | @start _ _ _ _ state | @resume _ _ _ _ state =>
    rcases state with call | outcome <;> cases eq
    rfl
  | wait =>
    cases eq
    rfl
  | elements _ ih | branches _ ih | next _ _ _ ih | branchWaits _ _ _ ih | branchOk _ _ _ ih =>
    exact ih eq block
  | rest | branchWaitsLast => exact block eq

theorem all_hasEnded_of_pending (none : pending branches = 0) : branches.all hasEnded = true := by
  rw [pending, List.length_eq_zero_iff, List.filter_eq_nil_iff] at none
  exact List.all_eq_true.2 fun b mem => by simpa using none b mem

theorem pending_fresh (branches : List Statement) : pending (branches.map fresh) = branches.length := by
  rw [pending, List.filter_eq_self.2, List.length_map]
  intro b mem
  obtain ⟨s, -, rfl⟩ := List.mem_map.1 mem
  rfl

theorem pending_set {index : Nat} {task : Task} (live : (branches.getD index .ended).hasEnded = false)
    (waits : task.hasEnded = false) : pending (branches.set index task) = pending branches := by
  induction branches generalizing index with
  | nil => rfl
  | cons head rest ih =>
    cases index with
    | zero =>
      rw [List.getD_cons_zero] at live
      simp [pending, live, waits]
    | succ index =>
      have same := ih live
      rw [pending, pending] at same ⊢
      rw [List.set_cons_succ, List.filter_cons, List.filter_cons]
      split <;> simp [same]

theorem pending_set_ended {index : Nat} (live : (branches.getD index .ended).hasEnded = false) :
    pending (branches.set index .ended) + 1 = pending branches := by
  induction branches generalizing index with
  | nil => cases live
  | cons head rest ih =>
    cases index with
    | zero =>
      rw [List.getD_cons_zero] at live
      have gone : Task.ended.hasEnded = true := rfl
      simp [pending, live, gone]
    | succ index =>
      have fewer := ih live
      rw [pending, pending] at fewer ⊢
      rw [List.set_cons_succ, List.filter_cons, List.filter_cons]
      split
      · rw [List.length_cons, List.length_cons, fewer]
      · exact fewer

theorem hasEnded_of_dropEnded {index : Nat} (found : dropEnded branches queue = index :: queue') :
    (branches.getD index .ended).hasEnded = false := by
  have head := List.head?_dropWhile_not (fun index => (branches.getD index .ended).hasEnded) queue
  rw [dropEnded] at found
  rw [found] at head
  simpa using head

/-- An entry of a branch that has ended makes no difference to a block. -/
theorem Polls.of_dropEnded (h : Polls setting (.block branches (dropEnded branches queue) true) place w w'
    progress) : Polls setting (.block branches queue true) place w w' progress := by
  induction queue with
  | nil => exact h
  | cons index queue ih =>
    rw [dropEnded, List.dropWhile_cons] at h
    split at h
    · next gone =>
      have ended : branches.getD index .ended = .ended := by
        cases old : branches.getD index .ended <;> rw [old] at gone <;> first | rfl | cases gone
      have same : branches.set index .ended = branches := by
        rw [List.getD_eq_getElem?_getD] at ended
        cases found : branches[index]? with
        | none => exact List.set_eq_of_length_le (List.getElem?_eq_none_iff.1 found)
        | some old =>
          rw [found, Option.getD_some] at ended
          obtain ⟨bound, rfl⟩ := List.getElem?_eq_some_iff.1 found
          rw [← ended, List.set_getElem_self]
      have later : Polls setting (.block (branches.set index .ended) queue true) place w w' progress :=
        same.symm ▸ ih h
      exact .branchOk (ended.symm ▸ .ended) later
    · exact h

/-- What a block shows whose branches have all waited that were polled. -/
inductive Pends (setting : Setting) (place : Position) (left : Nat) (branches : List Task)
    (queue : List Nat) (w : World) : List Task → List Nat → Bool → World → Prop where
  /-- None was to be polled. -/
  | spent {handedBack : Bool} (none : left = 0) (calm : handedBack = false → queue = []) :
    Pends setting place left branches queue w branches queue handedBack w
  | polled {branches' : List Task} {queue' : List Nat} {handedBack : Bool} {w' : World}
    (polls : Polls setting (.block branches queue true) place w w'
      (.ofBranches branches' queue' handedBack)) :
    Pends setting place left branches queue w branches' queue' handedBack w'

theorem Pends.after {index left : Nat} {task : Task} {handedBack : Bool}
    (first : Polls setting (branches.getD index .ended) (place ++ [index]) w mid (.waiting task))
    (pends : Pends setting place left (branches.set index task) (requeue task index queue) mid branches'
      queue' handedBack w') :
    Pends setting place (left + 1) branches (index :: queue) w branches' queue' handedBack w' := by
  cases pends with
  | spent _ calm => exact .polled (.branchWaitsLast first calm)
  | polled polls => exact .polled (.branchWaits first polls)

/-- What a block shows of which a branch has ended, perhaps after others that wait. -/
structure Readies (setting : Setting) (place : Position) (branches : List Task) (queue : List Nat)
    (w : World) (branches' : List Task) (queue' : List Nat) (outcome : Outcome) (w' : World) : Prop where
  intro ::
  last : ∃ earlier index mid, branches' = earlier.set index .ended ∧
    Polls setting (earlier.getD index .ended) (place ++ [index]) mid w' (.ended outcome) ∧
    ∀ last progress, Polls setting (.block earlier (index :: queue') true) place mid last progress →
      Polls setting (.block branches queue true) place w last progress
  fewer : pending branches' + 1 = pending branches

theorem Readies.after {index : Nat} {task : Task} {outcome : Outcome}
    (first : Polls setting (branches.getD index .ended) (place ++ [index]) w mid (.waiting task))
    (same : pending (branches.set index task) = pending branches)
    (readies : Readies setting place (branches.set index task) (requeue task index queue) mid branches'
      queue' outcome w') :
    Readies setting place branches (index :: queue) w branches' queue' outcome w' := by
  obtain ⟨earlier, i, before, eq, ends, goes⟩ := readies.last
  exact ⟨⟨earlier, i, before, eq, ends, fun _ _ later => .branchWaits first (goes _ _ later)⟩,
    readies.fewer.trans same⟩

def Shows (setting : Setting) (place : Position) (left : Nat) (branches : List Task) (queue : List Nat)
    (w : World) : World × Next → Prop
  | (w', .pending branches' queue' handedBack) =>
    Pends setting place left branches queue w branches' queue' handedBack w'
  | (w', .ready branches' queue' outcome) =>
    Readies setting place branches queue w branches' queue' outcome w'

theorem Shows.after {index left : Nat} {task : Task} {shown : World × Next}
    (first : Polls setting (branches.getD index .ended) (place ++ [index]) w mid (.waiting task))
    (same : pending (branches.set index task) = pending branches)
    (shows' : Shows setting place left (branches.set index task) (requeue task index queue) mid shown) :
    Shows setting place (left + 1) branches (index :: queue) w shown := by
  obtain ⟨last, next⟩ := shown
  cases next with
  | pending => exact Pends.after first shows'
  | ready => exact Readies.after first same shows'

theorem Shows.of_dropEnded {left : Nat} {shown : World × Next}
    (shows' : Shows setting place (left + 1) branches (dropEnded branches queue) w shown) :
    Shows setting place (left + 1) branches queue w shown := by
  obtain ⟨last, next⟩ := shown
  cases next with
  | pending =>
    cases shows' with
    | spent none => cases none
    | polled polls => exact Pends.polled polls.of_dropEnded
  | ready =>
    obtain ⟨⟨earlier, index, mid, eq, ends, goes⟩, fewer⟩ := shows'
    exact ⟨⟨earlier, index, mid, eq, ends, fun _ _ later => (goes _ _ later).of_dropEnded⟩, fewer⟩

/-- Polls of tasks up to a depth follow the rules. -/
def Ruled (setting : Setting) (n : Nat) : Prop :=
  ∀ t : Task, t.depth ≤ n → ∀ place w w' progress,
    poll setting t place w = (w', progress) → Polls setting t place w w' progress

variable (setting place queue w) in
theorem pollNext_shows (ruled : Ruled setting n) (left : Nat) (yielded : Bool)
    (bound : ∀ b ∈ branches, b.depth ≤ n) :
    Shows setting place left branches queue w
      (pollNext setting (poll setting) place left yielded branches queue w) := by
  induction left generalizing yielded branches queue w with
  | zero => exact Pends.spent rfl (by simp)
  | succ left ih =>
    rw [pollNext]
    refine Shows.of_dropEnded ?_
    rcases found : dropEnded branches queue with _ | ⟨index, queue⟩
    · exact Pends.polled (.rest fun _ => ⟨rfl, rfl⟩)
    · have live := hasEnded_of_dropEnded found
      have le := depth_getD bound index
      simp only
      rcases went : poll setting (branches.getD index .ended) (place ++ [index]) w with ⟨w', task | outcome⟩
      · have first := ruled _ le _ _ _ _ went
        have same := pending_set live first.hasEnded
        simp only
        split
        · exact Pends.polled (.branchWaitsLast first nofun)
        · exact .after first same (ih _ _ _ (depth_set bound index (Nat.le_trans (poll_depth went) le)))
      · exact ⟨⟨_, _, _, rfl, ruled _ le _ _ _ _ went, fun _ _ later => later⟩, pending_set_ended live⟩

variable (setting place queue w) in
theorem pollNext_bound (left : Nat) (yielded : Bool) (bound : ∀ b ∈ branches, b.depth ≤ n) :
    ∀ b ∈ (pollNext setting (poll setting) place left yielded branches queue w).2.branches,
      b.depth ≤ n :=
  have agree : Agree n (poll setting) (poll setting) :=
    ⟨fun _ _ _ _ => rfl, fun _ le _ _ _ _ waits => Nat.le_trans (poll_depth waits) le⟩
  (agree.pollNext left yielded bound queue w).2

theorem pollAll_polls (ruled : Ruled setting n) {left : Nat} (all : pending branches = left)
    (bound : ∀ b ∈ branches, b.depth ≤ n)
    (h : pollAll setting (poll setting) place left branches queue w = (w', progress)) :
    Polls setting (.block branches queue true) place w w' progress := by
  induction left generalizing branches queue w with
  | zero =>
    have ended := all_hasEnded_of_pending all
    have rest : Polls setting (.block branches queue true) place w w (.ofBranches branches queue true) :=
      .rest fun live => absurd ended (Bool.eq_false_iff.1 live)
    rw [Progress.ofBranches, if_pos ended] at rest
    cases h
    exact rest
  | succ left ih =>
    have shown := pollNext_shows setting place w queue ruled (left + 1) false bound
    have bound' := pollNext_bound setting place w queue (left + 1) false bound
    rw [pollAll] at h
    rcases went : pollNext setting (poll setting) place (left + 1) false branches queue w with
      ⟨mid, ⟨bs, q, handedBack⟩ | ⟨bs, q, failure | _⟩⟩ <;> rw [went] at h shown bound'
    · cases h
      cases shown with
      | spent none => cases none
      | polled polls => exact polls
    · obtain ⟨⟨earlier, index, before, rfl, ends, goes⟩, -⟩ := shown
      cases h
      exact goes _ _ (.branchFails ends rfl)
    · obtain ⟨⟨earlier, index, before, rfl, ends, goes⟩, fewer⟩ := shown
      exact goes _ _ (.branchOk ends (ih (Nat.succ.inj (fewer.trans all)) bound' h))

theorem pollElements_polls (ruled : Ruled setting n) {rest : List Statement}
    (bound : ∀ s ∈ rest, s.depth ≤ n) {current : Task} {index : Nat}
    (first : Polls setting current (place ++ [index]) w mid (.ended (.ok ())))
    (h : pollElements (poll setting) place rest (index + 1) mid = (w', progress)) :
    Polls setting (.sequence current index rest) place w w' progress := by
  induction rest generalizing current index w mid with
  | nil =>
    cases h
    exact .last first
  | cons s rest ih =>
    have le : (fresh s).depth ≤ n := bound s List.mem_cons_self
    refine .next first ?_
    rw [pollElements] at h
    rcases went : poll setting (.fresh s) (place ++ [index + 1]) mid with ⟨last, task | failure | _⟩ <;>
      rw [went] at h
    · cases h
      exact .wait (ruled _ le _ _ _ _ went)
    · cases h
      exact .stop (ruled _ le _ _ _ _ went)
    · exact ih (fun s mem => bound s (List.mem_cons_of_mem _ mem)) (ruled _ le _ _ _ _ went) h

theorem pollSequence_polls (ruled : Ruled setting n) {current : Task} {index : Nat}
    {rest : List Statement} (le : (Task.sequence current index rest).depth ≤ n + 1)
    (h : pollWith setting (poll setting) place (.sequence current index rest) w = (w', progress)) :
    Polls setting (.sequence current index rest) place w w' progress := by
  obtain ⟨inner, later⟩ := Nat.max_le.1 (Nat.le_of_succ_le_succ le)
  rw [pollWith] at h
  rcases went : poll setting current (place ++ [index]) w with ⟨mid, task | failure | _⟩ <;>
    rw [went] at h
  · cases h
    exact .wait (ruled _ inner _ _ _ _ went)
  · cases h
    exact .stop (ruled _ inner _ _ _ _ went)
  · exact pollElements_polls ruled (Statement.depths_le.1 later) (ruled _ inner _ _ _ _ went) h

theorem pollFresh_polls (ruled : Ruled setting n) {s : Statement} (le : s.depth ≤ n + 1)
    (h : pollFresh setting (poll setting) place s w = (w', progress)) :
    Polls setting (.fresh s) place w w' progress := by
  cases s with
  | noop =>
    cases h
    exact .noop
  | invocation call =>
    rw [pollFresh] at h
    split at h
    · next late =>
      cases h
      exact .skip late
    · next live =>
      rcases started : Call.start setting place call w with ⟨mid, state⟩
      rw [started] at h
      cases h
      exact .start (Bool.eq_false_iff.2 live) started
  | sequence elements =>
    cases elements with
    | nil =>
      cases h
      exact .nothing
    | cons s rest =>
      refine .elements (pollSequence_polls ruled le ?_)
      rw [pollWith]
      exact h
  | parallel branches =>
    refine .branches (pollAll_polls ruled (pending_fresh branches) (fun b mem => ?_) h)
    · obtain ⟨s, here, rfl⟩ := List.mem_map.1 mem
      exact Statement.depths_le.1 (Nat.le_of_succ_le_succ le) s here

theorem poll_ruled (n : Nat) : Ruled setting n := by
  induction n with
  | zero =>
    intro t shallow place w w' progress h
    cases t with
    | ended =>
      cases h
      exact .ended
    | fresh s => cases s <;> cases shallow
    | _ => cases shallow
  | succ n ih =>
    intro t le place w w' progress h
    rw [poll_eq] at h
    cases t with
    | ended =>
      cases h
      exact .ended
    | fresh s => exact pollFresh_polls ih le h
    | calling call =>
      rcases resumed : call.resume setting w with ⟨mid, state⟩
      rw [pollWith, resumed] at h
      cases h
      exact .resume resumed
    | sequence current index rest => exact pollSequence_polls ih le h
    | block branches queue handedBack =>
      exact (pollAll_polls ih rfl (depths_le.1 (Nat.le_of_succ_le_succ le)) h).again handedBack

end

theorem poll_polls {t : Task} {place : Position} {w w' : World} {progress : Progress}
    (h : poll setting t place w = (w', progress)) : Polls setting t place w w' progress :=
  poll_ruled t.depth t (Nat.le_refl _) place w w' progress h

end Task

end FlowTree

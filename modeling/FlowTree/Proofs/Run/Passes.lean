import FlowTree.Proofs.Run.Rules

/-! Blocks of which no branch asks to be polled again after it is polled. All branches in the queue of such
a block go on once, in one pass, up to the first failure. -/

set_option autoImplicit false

namespace FlowTree.Task

/-- What a pass over the branches in a queue leaves. -/
inductive Pass where
  | left (branches : List Task)
  | failed (outcome : Outcome)

def Pass.progress (handedBack : Bool) : World × Pass → World × Progress
  | (w, .left branches) => (w, .ofBranches branches [] handedBack)
  | (w, .failed outcome) => (w, .ended outcome)

section

variable (setting : Setting) (child : Task → Position → World → World × Progress) (place : Position)

/-- How a block ends after one of its branches has failed. -/
def failAll (branches : List Task) (queue : List Nat) (failure : Failure) (w : World) : World × Outcome :=
  collapse setting branches queue place [failure]
    (observe setting.mode place [] (pending branches) failure w)

/-- Lets the branches in a queue go on, one after another. -/
def passAll : List Task → List Nat → World → World × Pass
  | branches, [], w => (w, .left branches)
  | branches, index :: queue, w =>
    match child (branches.getD index .ended) (place ++ [index]) w with
    | (w, .waiting task) => passAll (branches.set index task) queue w
    | (w, .ended (.ok ())) => passAll (branches.set index .ended) queue w
    | (w, .ended (.error failure)) =>
      let (w, outcome) := failAll setting place (branches.set index .ended) queue failure w
      (w, .failed outcome)

/-- How a block goes on after its branches are polled up to the first that has ended. -/
def afterNext (left : Nat) : World × Next → World × Progress
  | (w, .pending branches queue handedBack) => (w, .ofBranches branches queue handedBack)
  | (w, .ready branches queue (.ok ())) => pollAll setting child place left branches queue w
  | (w, .ready branches queue (.error failure)) =>
    let (w, outcome) := failAll setting place branches queue failure w
    (w, .ended outcome)

end

variable {setting : Setting} {child : Task → Position → World → World × Progress} {place : Position}
  {branches : List Task} {queue : List Nat} {w : World} {left : Nat}

theorem pollAll_succ : pollAll setting child place (left + 1) branches queue w =
    afterNext setting child place left
      (pollNext setting child place (left + 1) false branches queue w) := by
  rw [pollAll]
  rcases pollNext setting child place (left + 1) false branches queue w with
    ⟨w', ⟨branches', queue', handedBack⟩ | ⟨branches', queue', failure | _⟩⟩ <;> rfl

/-- Different branches of a block that have not ended, of which none asks to be polled again after it is
polled. -/
structure Calm (child : Task → Position → World → World × Progress) (branches : List Task)
    (queue : List Nat) : Prop where
  apart : queue.Nodup
  live : ∀ i ∈ queue, (branches.getD i .ended).hasEnded = false
  waits : ∀ i ∈ queue, ∀ place w w' task,
    child (branches.getD i .ended) place w = (w', .waiting task) →
      task.woken = false ∧ task.hasEnded = false

namespace Calm

variable {index : Nat} {rest : List Nat}

theorem tail (calm : Calm child branches (index :: rest)) (task : Task) :
    Calm child (branches.set index task) rest := by
  obtain ⟨fresh, apart⟩ := List.nodup_cons.1 calm.apart
  have same : ∀ i ∈ rest, (branches.set index task).getD i .ended = branches.getD i .ended :=
    fun i mem => getD_set_of_ne (fun (eq : index = i) => fresh (eq ▸ mem)) task
  refine ⟨apart, fun i mem => ?_, fun i mem => ?_⟩ <;> rw [same i mem]
  · exact calm.live i (List.mem_cons_of_mem _ mem)
  · exact calm.waits i (List.mem_cons_of_mem _ mem)

theorem head_live (calm : Calm child branches (index :: rest)) :
    (branches.getD index .ended).hasEnded = false :=
  calm.live index List.mem_cons_self

theorem dropEnded_eq (calm : Calm child branches queue) : dropEnded branches queue = queue := by
  cases queue with
  | nil => rfl
  | cons index rest => rw [dropEnded, List.dropWhile_cons, calm.head_live, if_neg Bool.false_ne_true]

/-- Each entry of the queue is for a branch that is left. -/
theorem length_le (calm : Calm child branches queue) : queue.length ≤ pending branches := by
  induction queue generalizing branches with
  | nil => exact Nat.zero_le _
  | cons index rest ih =>
    have fewer := pending_set_ended calm.head_live
    exact Nat.le_trans (Nat.succ_le_succ (ih (calm.tail .ended))) (Nat.le_of_eq fewer)

end Calm

-- As many branches may be polled as are left, which is enough for all that are in the queue.
theorem afterNext_calm (calm : Calm child branches queue) {more : Nat} (enough : queue.length ≤ more)
    (all : pending branches = left + 1) :
    ∃ handedBack, (setting.yields = false → handedBack = false) ∧
      afterNext setting child place left (pollNext setting child place more false branches queue w) =
        Pass.progress handedBack (passAll setting child place branches queue w) := by
  induction queue generalizing branches left more w with
  | nil =>
    cases more with
    | zero =>
      refine ⟨setting.yields, id, ?_⟩
      rw [pollNext, List.isEmpty_nil, Bool.not_true, Bool.or_false]
      rfl
    | succ more => exact ⟨false, fun _ => rfl, rfl⟩
  | cons index rest ih =>
    obtain ⟨more, rfl⟩ : ∃ n, more = n + 1 := Nat.exists_eq_succ_of_ne_zero (Nat.ne_zero_of_lt enough)
    rw [pollNext, calm.dropEnded_eq, passAll]
    rcases polled : child (branches.getD index .ended) (place ++ [index]) w with ⟨mid, task | failure | _⟩
    · obtain ⟨asleep, waits⟩ := calm.waits index List.mem_cons_self _ _ _ _ polled
      have same := pending_set calm.head_live waits
      simp only [polled, asleep, requeue, Bool.or_false, Bool.and_false, Bool.false_eq_true, if_false]
      exact ih (calm.tail task) (Nat.le_of_succ_le_succ enough) (same.trans all)
    · exact ⟨false, fun _ => rfl, by simp only [polled]; rfl⟩
    · have fewer : pending (branches.set index .ended) = left :=
        Nat.succ.inj ((pending_set_ended calm.head_live).trans all)
      have tail := calm.tail Task.ended
      simp only [polled, afterNext]
      cases left with
      | zero =>
        have none : rest = [] := List.length_eq_zero_iff.1 (Nat.le_zero.1 (fewer ▸ tail.length_le))
        refine ⟨false, fun _ => rfl, ?_⟩
        rw [none, passAll, pollAll, Pass.progress, Progress.ofBranches,
          if_pos (all_hasEnded_of_pending fewer)]
      | succ left =>
        rw [pollAll_succ]
        exact ih tail (fewer ▸ tail.length_le) fewer

variable (place) in
/-- A poll of such a block is one pass over its queue. -/
theorem pollAll_calm (calm : Calm child branches queue) (all : pending branches = left) (w : World) :
    ∃ handedBack, (setting.yields = false → handedBack = false) ∧
      pollAll setting child place left branches queue w =
        Pass.progress handedBack (passAll setting child place branches queue w) := by
  cases left with
  | zero =>
    have none : queue = [] := List.length_eq_zero_iff.1 (Nat.le_zero.1 (all ▸ calm.length_le))
    refine ⟨false, fun _ => rfl, ?_⟩
    rw [none, passAll, pollAll, Pass.progress, Progress.ofBranches, if_pos (all_hasEnded_of_pending all)]
  | succ left =>
    rw [pollAll_succ]
    exact afterNext_calm calm (all ▸ calm.length_le) all

variable (place) in
theorem poll_calm (calm : Calm (poll setting) branches queue) (handedBack : Bool) (w : World) :
    ∃ handsBack, (setting.yields = false → handsBack = false) ∧
      poll setting (.block branches queue handedBack) place w =
        Pass.progress handsBack (passAll setting (poll setting) place branches queue w) := by
  rw [poll_eq]
  exact pollAll_calm place calm rfl w

end FlowTree.Task

import FlowTree.Proofs.Run.Going
import FlowTree.Proofs.Run.Passes

/-! Blocks that do not yield. Where none does, nothing that is polled and waits asks to be polled again, so
a poll of a block is one pass over its queue. A poll of a task that rests does nothing. -/

set_option autoImplicit false

namespace FlowTree

theorem Call.resume_pending {setting : Setting} {call : Call} {w : World}
    (pending : w.clock < call.nextInstant) (live : w.cancelled = false) :
    call.resume setting w = (w, .inl call) := by
  have polled : call.poll setting w = (w, .asleep call) := by
    unfold nextInstant at pending
    unfold poll await
    cases expiry : call.expiry with
    | none =>
      rw [expiry] at pending
      rw [if_neg (Nat.not_le.2 pending)]
    | some timer =>
      rw [expiry] at pending
      obtain ⟨wake, grant⟩ := Nat.lt_min.1 pending
      rw [if_neg (Nat.not_le.2 wake)]
      simp only [if_neg (Nat.not_le.2 grant)]
  rw [resume, polled]
  simp only [takeReply, live]
  rfl

namespace Task

variable {setting : Setting} {p : Call → Prop} {place : Position} {w w' : World} {task new : Task}
  {branches : List Task} {queue : List Nat} {before : Bool}

/-- A poll of a task that rests does nothing. -/
theorem Rests.poll (rests : task.Rests fun call => w.clock < call.nextInstant) (asleep : task.woken = false)
    (live : w.cancelled = false) (place : Position) : poll setting task place w = (w, .waiting task) := by
  induction rests generalizing place with
  | calling pending =>
    rw [poll_eq, pollWith, Call.resume_pending pending live]
    rfl
  | sequence _ ih =>
    rw [poll_eq, pollWith, ih asleep]
  | @block branches handedBack _ active =>
    have unlike : branches.all Task.hasEnded = false := by simpa using active
    have some : pending branches ≠ 0 := fun none =>
      Bool.false_ne_true (unlike.symm.trans (all_hasEnded_of_pending none))
    obtain ⟨left, eq⟩ := Nat.exists_eq_succ_of_ne_zero some
    cases (asleep : handedBack = false)
    rw [poll_eq, pollWith, eq, pollAll, pollNext]
    simp only [dropEnded, List.dropWhile_nil, Progress.ofBranches, unlike]
    rfl

theorem calm_of_poised (poised : (Task.block branches queue before).Poised p)
    (asleep : ∀ i ∈ queue, ∀ place w w' new,
      Task.poll setting (branches.getD i .ended) place w = (w', .waiting new) → new.woken = false) :
    Calm (Task.poll setting) branches queue := by
  cases poised with | block apart live
  exact ⟨apart, live, fun i mem place w w' new polled =>
    ⟨asleep i mem place w w' new polled, (poll_polls polled).hasEnded⟩⟩

theorem Pass.asleep {pass : World × Pass} (waits : Pass.progress false pass = (w', .waiting new)) :
    new.woken = false := by
  obtain ⟨w, branches | outcome⟩ := pass
  · obtain ⟨rfl, -⟩ := ofBranches_waiting (Prod.ext_iff.1 waits).2
    rfl
  · cases waits

theorem pollElements_asleep {rest : List Statement} (each : ∀ s ∈ rest, ∀ place w w' new,
      Task.poll setting (.fresh s) place w = (w', .waiting new) → new.woken = false) (index : Nat)
    (waits : pollElements (Task.poll setting) place rest index w = (w', .waiting new)) :
    new.woken = false := by
  induction rest generalizing index w with
  | nil => cases waits
  | cons s rest ih =>
    rw [pollElements] at waits
    rcases polled : Task.poll setting (.fresh s) (place ++ [index]) w with ⟨mid, task | failure | _⟩ <;>
      rw [polled] at waits
    · cases waits
      have asleep : task.woken = false := each s List.mem_cons_self _ _ _ _ polled
      exact asleep
    · cases waits
    · exact ih (fun s mem => each s (List.mem_cons_of_mem _ mem)) _ waits

section

variable (steady : setting.yields = false)
include steady

-- The induction is on the depth of what is polled, since the branches of a block are statements at first
-- and tasks later.
theorem asleep_of_depth (n : Nat) (le : task.depth ≤ n) (poised : task.Poised p)
    (waits : poll setting task place w = (w', .waiting new)) : new.woken = false := by
  induction n generalizing task place w w' new with
  | zero =>
    cases task with
    | ended => cases waits
    | fresh s => cases s <;> cases le
    | _ => cases le
  | succ n ih =>
    have fresh {parts : List Statement} (le : Statement.depths parts ≤ n) : ∀ s ∈ parts, ∀ place w w' new,
        Task.poll setting (.fresh s) place w = (w', .waiting new) → new.woken = false :=
      fun s mem _ _ _ _ => ih (Statement.depths_le.1 le s mem) (.fresh s)
    have block {branches : List Task} {queue : List Nat} {before : Bool} {left : Nat}
        (le : ∀ b ∈ branches, b.depth ≤ n) (poised : (Task.block branches queue before).Poised p)
        (all : pending branches = left)
        (waits : pollAll setting (Task.poll setting) place left branches queue w = (w', .waiting new)) :
        new.woken = false := by
      obtain ⟨handedBack, calm, polled⟩ := pollAll_calm place (calm_of_poised poised
        fun i _ _ _ _ _ => ih (depth_getD le i) (poised.branch i)) all w
      rw [polled, calm steady] at waits
      exact Pass.asleep waits
    rw [poll_eq] at waits
    cases poised with
    | ended => cases waits
    | fresh s =>
      cases s with
      | noop => cases waits
      | invocation call =>
        rw [pollWith, pollFresh] at waits
        split at waits
        · cases waits
        · rcases started : Call.start setting place call w with ⟨mid, call | outcome⟩ <;>
            rw [started] at waits <;> cases waits
          rfl
      | sequence elements => exact pollElements_asleep (fresh (Nat.le_of_succ_le_succ le)) _ waits
      | parallel parts =>
        refine block (fun b mem => ?_) (poised_branches p parts true) (pending_fresh parts) waits
        obtain ⟨s, here, rfl⟩ := List.mem_map.1 mem
        exact Statement.depths_le.1 (Nat.le_of_succ_le_succ le) s here
    | calling call =>
      rw [pollWith] at waits
      rcases resumed : call.resume setting w with ⟨mid, call | outcome⟩ <;>
        rw [resumed] at waits <;> cases waits
      rfl
    | @sequence current index rest first =>
      obtain ⟨inner, later⟩ := Nat.max_le.1 (Nat.le_of_succ_le_succ le)
      rw [pollWith] at waits
      rcases polled : poll setting current (place ++ [index]) w with ⟨mid, task | failure | _⟩ <;>
        rw [polled] at waits
      · cases waits
        have asleep : task.woken = false := ih inner first polled
        exact asleep
      · cases waits
      · exact pollElements_asleep (fresh later) _ waits
    | @block branches queue before apart live queued others =>
      have poised : (Task.block branches queue before).Poised p := .block apart live queued others
      exact block (depths_le.1 (Nat.le_of_succ_le_succ le)) poised rfl waits

/-- What is polled and waits does not ask to be polled again. -/
theorem poll_asleep (poised : task.Poised p) (waits : poll setting task place w = (w', .waiting new)) :
    new.woken = false :=
  asleep_of_depth steady task.depth (Nat.le_refl _) poised waits

theorem calm_of_steady (poised : (Task.block branches queue before).Poised p) :
    Calm (Task.poll setting) branches queue :=
  calm_of_poised poised fun i _ _ _ _ _ => poll_asleep steady (poised.branch i)

theorem poll_block_steady (poised : (Task.block branches queue before).Poised p) (place : Position)
    (w : World) : poll setting (.block branches queue before) place w =
      Pass.progress false (passAll setting (poll setting) place branches queue w) := by
  obtain ⟨handedBack, calm, polled⟩ := poll_calm place (calm_of_steady steady poised) before w
  rw [polled, calm steady]

theorem poll_parallel_steady (parts : List Statement) (place : Position) (w : World) :
    poll setting (.fresh (.parallel parts)) place w = Pass.progress false (passAll setting (poll setting)
      place (parts.map .fresh) (List.range parts.length) w) := by
  have poised := poised_branches (fun _ => True) parts true
  obtain ⟨handedBack, calm, polled⟩ :=
    pollAll_calm place (calm_of_steady steady poised) (pending_fresh parts) w
  rw [poll_eq, pollWith, pollFresh, polled, calm steady]

end

end Task

end FlowTree

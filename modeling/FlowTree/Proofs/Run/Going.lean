import FlowTree.Proofs.Run.Waiting

/-! What can be polled at an instant. The parts of a task that can be polled can be polled themselves, in
turn: a poll after which the task goes on leaves the clock and the caller's token as they are, and all that
is not polled again waits for timers that are still to fire. -/

set_option autoImplicit false

namespace FlowTree.Task

variable {setting : Setting} {place : Position} {w w' : World} {progress : Progress}

/-- The caller's token can only be cancelled by a call that fails then. -/
theorem Polls.live {task : Task} (h : Polls setting task place w w' progress) (live : w.cancelled = false)
    (well : ∀ failure, progress ≠ .ended (.error failure)) : w'.cancelled = false := by
  have landed {call : Call} {mid w' : World} {state : Call ⊕ Outcome} (lands : call.Lands mid w' state)
      (well : ∀ failure, Progress.ofCall state ≠ .ended (.error failure)) : w'.cancelled = false := by
    refine Bool.eq_false_iff.2 fun late => ?_
    obtain ⟨failure, rfl⟩ := lands.fails_of_late late
    exact well failure rfl
  induction h with
  | ended | noop | nothing | rest => exact live
  | skip late => cases live.symm.trans late
  | start _ started =>
    obtain ⟨_, _, _, lands⟩ := Call.start_lands started
    exact landed lands well
  | resume resumed =>
    obtain ⟨_, _, lands⟩ := Call.resume_lands resumed
    exact landed lands well
  | elements _ ih | branches _ ih => exact ih live well
  | wait _ ih | last _ ih | branchWaitsLast _ _ ih => exact ih live nofun
  | stop => exact absurd rfl (well _)
  | next _ _ ih later | branchWaits _ _ ih later | branchOk _ _ ih later =>
    exact later (ih live nofun) well
  | branchFails _ collapsed =>
    obtain ⟨last, rfl⟩ := (collapse_unwinds collapsed).fails_of_failure
    exact absurd rfl (well last)

theorem Polls.live_of_ok {task : Task} (h : Polls setting task place w w' (.ended (.ok ())))
    (live : w.cancelled = false) : w'.cancelled = false :=
  h.live live fun _ eq => by cases eq

theorem Polls.live_of_waits {task new : Task} (h : Polls setting task place w w' (.waiting new))
    (live : w.cancelled = false) : w'.cancelled = false :=
  h.live live fun _ eq => by cases eq

/-- A task that can be polled: all of it that is not to be polled waits for timers that are still to fire,
and the caller's token is not cancelled. -/
structure Going (task : Task) (w : World) : Prop where
  poised : task.Poised fun call => w.clock < call.nextInstant
  live : w.cancelled = false

theorem Going.fresh (live : w.cancelled = false) (s : Statement) : (fresh s).Going w := ⟨.fresh s, live⟩

section

variable {task new : Task} {index : Nat} {rest : List Statement} {branches : List Task} {queue : List Nat}
  {before : Bool}

theorem Going.clock (going : task.Going w) (polled : poll setting task place w = (w', progress)) :
    w'.clock = w.clock :=
  (poll_proceeds going.poised.trivially polled).clock

theorem Going.paused (going : task.Going w) (polled : poll setting task place w = (w', .waiting new)) :
    new.Paused fun call => w.clock < call.nextInstant :=
  (poll_polls polled).paused (kept_clock setting w.clock) going.poised rfl

theorem Going.first (going : (Task.sequence task index rest).Going w) : task.Going w := by
  obtain ⟨poised, live⟩ := going
  cases poised with | sequence inner
  exact ⟨inner, live⟩

theorem Going.branch (going : (Task.block branches queue before).Going w) (index : Nat) :
    (branches.getD index .ended).Going w :=
  ⟨going.poised.branch index, going.live⟩

theorem Going.again (going : (Task.block branches queue before).Going w) (handedBack : Bool) :
    (Task.block branches queue handedBack).Going w :=
  ⟨going.poised.again handedBack, going.live⟩

theorem Going.started (live : w.cancelled = false) (parts : List Statement) (handedBack : Bool) :
    (Task.block (parts.map .fresh) (List.range parts.length) handedBack).Going w :=
  ⟨poised_branches _ parts handedBack, live⟩

theorem Going.dropEnded (going : (Task.block branches queue before).Going w) :
    Task.dropEnded branches queue = queue := by
  obtain ⟨poised, -⟩ := going
  cases poised with | block _ live
  cases queue with
  | nil => rfl
  | cons index queue =>
    rw [Task.dropEnded, List.dropWhile_cons, live index List.mem_cons_self, if_neg Bool.false_ne_true]

/-- The queue of a block with one branch. -/
theorem Going.nothing_else (going : (Task.block branches (index :: queue) before).Going w)
    (few : branches.length ≤ 1) : queue = [] := by
  obtain ⟨poised, -⟩ := going
  cases poised with | block apart live
  have only {i : Nat} (mem : i ∈ index :: queue) : i = 0 := by
    by_contra other
    have active := live i mem
    rw [List.getD_eq_getElem?_getD, List.getElem?_eq_none (by omega)] at active
    cases active
  refine List.eq_nil_iff_forall_not_mem.2 fun i mem => (List.nodup_cons.1 apart).1 ?_
  rw [only List.mem_cons_self, ← only (List.mem_cons_of_mem index mem)]
  exact mem

theorem Going.replace (going : (Task.block branches (index :: queue) before).Going w)
    (polled : poll setting (branches.getD index .ended) place w = (w', .waiting new)) (handedBack : Bool) :
    (Task.block (branches.set index new) (requeue new index queue) handedBack).Going w' := by
  have branch := going.branch index
  refine ⟨?_, (poll_polls polled).live_of_waits going.live⟩
  rw [branch.clock polled]
  exact going.poised.replace handedBack (branch.paused polled)

theorem Going.ends (going : (Task.block branches (index :: queue) before).Going w)
    (polled : poll setting (branches.getD index .ended) place w = (w', .ended (.ok ()))) (handedBack : Bool) :
    (Task.block (branches.set index .ended) queue handedBack).Going w' := by
  refine ⟨?_, (poll_polls polled).live_of_ok going.live⟩
  rw [(going.branch index).clock polled]
  exact going.poised.ends handedBack

end

/-- A task between two polls, in a scope that is not cancelled. -/
structure Pauses (task : Task) (w : World) : Prop where
  paused : task.Paused fun call => w.clock < call.nextInstant
  live : w.cancelled = false

theorem Pauses.fresh (live : w.cancelled = false) (s : Statement) : (fresh s).Pauses w :=
  ⟨paused_fresh _ s, live⟩

theorem Going.pauses {task new : Task} (going : task.Going w)
    (polled : poll setting task place w = (w', .waiting new)) : new.Pauses w' := by
  refine ⟨?_, (poll_polls polled).live_of_waits going.live⟩
  rw [going.clock polled]
  exact going.paused polled

theorem Pauses.going {task : Task} (pauses : task.Pauses w) : task.Going w :=
  ⟨pauses.paused.poised, pauses.live⟩

theorem Pauses.wake {task : Task} (pauses : task.Pauses w) (asleep : task.woken = false) (instant : Nat) :
    (task.wake instant).Going { w with clock := instant } :=
  ⟨(pauses.paused.rests asleep).wake_at instant, pauses.live⟩

end FlowTree.Task

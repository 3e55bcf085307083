import FlowTree.Proofs.Run.Waiting

/-! A run that goes well takes the time of its critical path: elements take their time one after another,
branches at once. At every point the instants at which calls wake and what is left of the scripts and of
the tree tell when the run will end, and no turn and no instant changes that. -/

set_option autoImplicit false

namespace FlowTree

namespace Statement

mutual

def criticalPath (cost : Invocation → Nat) : Statement → Nat
  | .invocation call => cost call
  | .sequence elements => criticalSum cost elements
  | .parallel branches => criticalMax cost branches
  | .noop => 0

def criticalSum (cost : Invocation → Nat) : List Statement → Nat
  | [] => 0
  | s :: rest => criticalPath cost s + criticalSum cost rest

def criticalMax (cost : Invocation → Nat) : List Statement → Nat
  | [] => 0
  | s :: rest => max (criticalPath cost s) (criticalMax cost rest)

end

end Statement

namespace Part

mutual

/-- The instant at which a part ends that goes on at some instant, if nothing fails. -/
def endsAt (cost : Invocation → Nat) : Part → Nat → Nat
  | .ended, clock => clock
  | .unstarted invocation, clock => clock + cost invocation
  | .calling call, _ => call.wake.due + call.rest.delay
  | .sequence _ elements, clock => endsInTurn cost elements clock
  | .block branches _, clock => endsLast cost branches clock

def endsInTurn (cost : Invocation → Nat) : List Part → Nat → Nat
  | [], clock => clock
  | part :: rest, clock => endsInTurn cost rest (endsAt cost part clock)

def endsLast (cost : Invocation → Nat) : List Part → Nat → Nat
  | [], clock => clock
  | part :: rest, clock => max (endsAt cost part clock) (endsLast cost rest clock)

end

variable {cost : Invocation → Nat}

theorem endsLast_le {parts : List Part} {clock n : Nat} :
    endsLast cost parts clock ≤ n ↔ clock ≤ n ∧ ∀ p ∈ parts, p.endsAt cost clock ≤ n := by
  induction parts with
  | nil => simp [endsLast]
  | cons part rest ih =>
    rw [endsLast, Nat.max_le, ih, List.forall_mem_cons]
    exact and_left_comm

theorem le_endsLast (parts : List Part) (clock : Nat) : clock ≤ endsLast cost parts clock :=
  (endsLast_le.1 (Nat.le_refl _)).1

theorem endsLast_ended {parts : List Part} (all : ∀ b ∈ parts, b = .ended) (clock : Nat) :
    endsLast cost parts clock = clock := by
  refine Nat.le_antisymm (endsLast_le.2 ⟨Nat.le_refl _, fun p mem => ?_⟩) (le_endsLast _ _)
  rw [all p mem, endsAt]

theorem endsLast_branch (before : List Part) (branch : Part) (after : List Part) (clock : Nat) :
    endsLast cost (before ++ branch :: after) clock =
      max (branch.endsAt cost clock) (endsLast cost (before ++ .ended :: after) clock) := by
  refine eq_of_forall_ge_iff fun n => ?_
  simp only [endsLast_le, Nat.max_le, List.forall_mem_append, List.forall_mem_cons, endsAt]
  tauto

end Part

namespace Statement

variable {cost : Invocation → Nat}

theorem endsInTurn_parts {elements : List Statement}
    (each : ∀ s ∈ elements, ∀ clock, s.part.endsAt cost clock = clock + s.criticalPath cost)
    (clock : Nat) :
    Part.endsInTurn cost (Statement.parts elements) clock = clock + criticalSum cost elements := by
  induction elements generalizing clock with
  | nil => rfl
  | cons s rest ih =>
    rw [Statement.parts, Part.endsInTurn, each s List.mem_cons_self,
      ih fun s mem => each s (List.mem_cons_of_mem _ mem), criticalSum, Nat.add_assoc]

theorem endsLast_parts {branches : List Statement}
    (each : ∀ s ∈ branches, ∀ clock, s.part.endsAt cost clock = clock + s.criticalPath cost)
    (clock : Nat) :
    Part.endsLast cost (Statement.parts branches) clock = clock + criticalMax cost branches := by
  induction branches with
  | nil => rfl
  | cons s rest ih =>
    rw [Statement.parts, Part.endsLast, each s List.mem_cons_self,
      ih fun s mem => each s (List.mem_cons_of_mem _ mem), criticalMax, Nat.add_max_add_left]

theorem endsAt_part (s : Statement) (clock : Nat) :
    s.part.endsAt cost clock = clock + s.criticalPath cost := by
  induction s generalizing clock with
  | noop => rfl
  | invocation call => rfl
  | sequence elements ih => exact endsInTurn_parts ih clock
  | parallel branches ih => exact endsLast_parts ih clock

end Statement

def Host.Single (host : Host) : Prop :=
  ∀ name work, host.find? name = some work → ∃ script, work = .scripted [script]

theorem Host.single_of_units {host : Host}
    (each : ∀ unit ∈ host.units, ∃ script, unit.2 = .scripted [script]) : host.Single := by
  intro name work found
  unfold find? at found
  obtain ⟨units, enforces⟩ := host
  induction units with
  | nil => cases found
  | cons unit rest ih =>
    rw [List.lookup_cons] at found
    split at found
    · cases found
      exact each unit List.mem_cons_self
    · exact ih (fun unit mem => each unit (List.mem_cons_of_mem _ mem)) found

def Host.delay (host : Host) (name : String) : Nat :=
  match host.find? name with
  | some (.scripted [script]) => script.delay
  | _ => 0

namespace Call

variable {cost : Invocation → Nat} {setting : Setting} {w mid w' : World} {call next : Call}
  {reply : Reply} {state : Call ⊕ Outcome} {steps : Script}

theorem takeReply_well (taken : call.takeReply w reply = (w', state))
    (well : ∀ failure, state ≠ .inr (.error failure)) :
    (∃ next, reply = .asleep next ∧ state = .inl next) ∨
      ∃ output, reply = .answered (.ok output) ∧ state = .inr (.ok ()) := by
  unfold takeReply at taken
  split at taken
  · obtain ⟨rfl, rfl⟩ := Prod.mk.inj taken
    exact absurd rfl (well _)
  · split at taken <;> obtain ⟨rfl, rfl⟩ := Prod.mk.inj taken
    · exact .inr ⟨_, rfl, rfl⟩
    · exact absurd rfl (well _)
    · exact absurd rfl (well _)
    · exact .inl ⟨_, rfl, rfl⟩

/-- A call whose script goes on takes the time of the steps before it. -/
theorem Shows.endsAt (shows' : Shows setting w call steps reply)
    (taken : call.takeReply mid reply = (w', state))
    (well : ∀ failure, state ≠ .inr (.error failure)) :
    (Progress.ofCall state).rest.endsAt cost w.clock = w.clock + steps.delay := by
  have stands := Script.goOn_stands call.echo steps
  cases shows' with
  | answered ends =>
    rw [ends] at stands
    cases stands with | answered idle
    rcases takeReply_well taken well with ⟨next, ⟨⟩, -⟩ | ⟨output, -, rfl⟩
    rw [idle]
    rfl
  | @asleep ms next same sleeps wakes granted early =>
    rw [sleeps] at stands
    cases stands with | asleep positive delay
    rcases takeReply_well taken well with ⟨_, ⟨⟩, rfl⟩ | ⟨output, ⟨⟩, -⟩
    have ends : (Progress.ofCall (.inl next)).rest.endsAt cost w.clock =
        next.wake.due + next.rest.delay := rfl
    rw [ends, wakes, delay, Nat.add_assoc]
  | expired =>
    rcases takeReply_well taken well with ⟨_, ⟨⟩, -⟩ | ⟨_, ⟨⟩, -⟩

theorem start_endsAt (single : setting.host.Single) {place : Position} {invocation : Invocation}
    (started : start setting place invocation w = (w', state))
    (well : ∀ failure, state ≠ .inr (.error failure)) :
    (Progress.ofCall state).rest.endsAt cost w.clock = w.clock + setting.host.delay invocation.name := by
  rcases start_cases setting place invocation w with ⟨-, eq⟩ | ⟨work, mid, reply, found, goes, eq⟩
  · rcases takeReply_well (eq.symm.trans started) well with ⟨_, ⟨⟩, -⟩ | ⟨_, ⟨⟩, -⟩
  · obtain ⟨script, rfl⟩ := single _ _ found
    have steps : (Work.scripted [script]).script (w.called.count invocation.name)
        (w.inputs invocation) = script := by
      cases w.called.count invocation.name <;> rfl
    have replied := advance_shows setting (taken setting place invocation w)
      (fresh setting place invocation w) script
    rw [steps] at goes
    rw [goes] at replied
    rw [Host.delay, found]
    exact replied.endsAt (eq.symm.trans started) well

theorem nextInstant_le_wake (call : Call) : call.nextInstant ≤ call.wake.due := by
  unfold nextInstant
  split
  · exact Nat.min_le_left _ _
  · exact Nat.le_refl _

theorem resume_endsAt (timely : w.clock ≤ call.nextInstant)
    (resumed : call.resume setting w = (w', state))
    (well : ∀ failure, state ≠ .inr (.error failure)) :
    (Progress.ofCall state).rest.endsAt cost w.clock = call.wake.due + call.rest.delay := by
  rw [resume] at resumed
  rcases polled : call.poll setting w with ⟨mid, reply⟩
  rw [polled] at resumed
  unfold poll at polled
  split at polled
  · next due =>
    have now : call.wake.due = w.clock :=
      Nat.le_antisymm due (timely.trans call.nextInstant_le_wake)
    have replied := advance_shows setting w call call.rest
    rw [polled] at replied
    rw [now]
    exact replied.endsAt resumed well
  · -- The call still sleeps, and the timer that is due is not its own.
    obtain ⟨rfl, waits⟩ := Prod.mk.inj polled
    rcases takeReply_well resumed well with ⟨next, rfl, rfl⟩ | ⟨output, rfl, rfl⟩
    · obtain rfl := await_asleep waits
      rfl
    · unfold await at waits
      split at waits
      · split at waits <;> cases waits
      · cases waits

end Call

namespace Part

variable {setting : Setting} {part : Part} {place : Position} {w w' : World} {progress : Progress}

section

variable {before after : List Part} {branch new : Part} {earlier later : Nat}

theorem timely_branch (same : later = earlier)
    (timely : ∀ call ∈ (block (before ++ branch :: after) []).calls, earlier ≤ call.nextInstant)
    (left : ∀ call ∈ new.calls, later ≤ call.nextInstant) :
    ∀ call ∈ (block (before ++ new :: after) []).calls, later ≤ call.nextInstant := by
  rw [calls_block _ _ _ _ []] at timely ⊢
  intro call mem
  rcases Multiset.mem_add.1 mem with mem | mem
  · exact left call mem
  · rw [same]
    exact timely call (Multiset.mem_add.2 (.inr mem))

theorem own_timely
    (timely : ∀ call ∈ (block (before ++ branch :: after) []).calls, earlier ≤ call.nextInstant) :
    ∀ call ∈ branch.calls, earlier ≤ call.nextInstant := by
  rw [calls_block _ _ _ _ []] at timely
  exact fun call mem => timely call (Multiset.mem_add.2 (.inl mem))

theorem endsAt_branch {cost : Invocation → Nat} (same : later = earlier)
    (ends : new.endsAt cost later = branch.endsAt cost earlier) :
    (block (before ++ new :: after) []).endsAt cost later =
      (block (before ++ branch :: after) []).endsAt cost earlier := by
  rw [endsAt, endsAt, endsLast_branch, endsLast_branch _ branch, ends, same]

end

theorem Proceeds.endsAt (single : setting.host.Single)
    (h : Proceeds setting part place w w' progress)
    (timely : ∀ call ∈ part.calls, w.clock ≤ call.nextInstant)
    (well : ∀ failure, progress ≠ .ended (.error failure)) :
    progress.rest.endsAt (fun call => setting.host.delay call.name) w'.clock =
      part.endsAt (fun call => setting.host.delay call.name) w.clock := by
  have clock := h.clock
  induction h with
  | ended => rfl
  | skip => exact absurd rfl (well _)
  | @start invocation place w w' state live started =>
    rw [clock]
    refine Call.start_endsAt single started fun failure fails => well failure ?_
    rw [fails]
    rfl
  | @resume call place w w' state resumed =>
    rw [clock]
    refine Call.resume_endsAt (timely call (Multiset.mem_singleton_self call)) resumed
      fun failure fails => well failure ?_
    rw [fails]
    rfl
  | finished => rfl
  | @wait index current rest place w w' task first ih =>
    rw [calls_sequence] at timely
    exact congrArg (endsInTurn _ (Statement.parts rest)) (ih timely nofun first.clock)
  | @next index current rest place w mid w' progress first others ih later =>
    rw [calls_sequence] at timely
    have ends := ih timely nofun first.clock
    have idle : ∀ call ∈ (sequence (index + 1) (Statement.parts rest)).calls,
        mid.clock ≤ call.nextInstant := by
      rw [calls_rest]
      exact fun call mem => absurd mem (Multiset.notMem_zero call)
    rw [later idle well others.clock, Part.endsAt, Part.endsAt, endsInTurn, ← ends]
    rfl
  | stop => exact absurd rfl (well _)
  | @rest tasks queue handedBack place w begun =>
    unfold Progress.ofBranches
    split
    · next all => exact (endsLast_ended (Task.parts_ended all) w.clock).symm
    · rfl
  | branchWaits first others ih later =>
    have own := own_timely timely
    have ends := ih own nofun first.clock
    rw [later (timely_branch first.clock timely (first.timely own)) well others.clock]
    exact endsAt_branch first.clock ends
  | branchOk first others ih later =>
    have own := own_timely timely
    have ends := ih own nofun first.clock
    rw [later (timely_branch first.clock timely (first.timely own)) well others.clock]
    exact endsAt_branch first.clock ends
  | branchFails _ others _ =>
    obtain ⟨failure, rfl⟩ := others.fails_of_failure
    exact absurd rfl (well failure)

end Part

namespace Task

variable {cost : Invocation → Nat} {task : Task} {clock instant : Nat}

/-- Time that passes up to the next timer does not change when a task will end that waits. -/
theorem Awaits.endsAt (awaits : task.Awaits clock) (le : clock ≤ instant)
    (timely : ∀ call ∈ task.part.calls, instant ≤ call.nextInstant) :
    task.part.endsAt cost instant = task.part.endsAt cost clock ∧
      instant ≤ task.part.endsAt cost clock := by
  induction awaits with
  | @calling call _ =>
    refine ⟨rfl, ?_⟩
    have later := (timely call (Multiset.mem_singleton_self call)).trans call.nextInstant_le_wake
    exact later.trans (Nat.le_add_right _ _)
  | @sequence current index rest first ih =>
    rw [part, Part.calls_sequence] at timely
    obtain ⟨same, later⟩ := ih timely
    have ends (n : Nat) : (Task.sequence current index rest).part.endsAt cost n =
        current.part.endsAt cost n + Statement.criticalSum cost rest :=
      Statement.endsInTurn_parts (fun s _ => s.endsAt_part) _
    rw [ends, ends, same]
    exact ⟨rfl, later.trans (Nat.le_add_right _ _)⟩
  | @block branches handedBack each live ih =>
    have own (t : Task) (mem : t ∈ branches) (active : t.hasEnded = false) :=
      ih t mem active fun call within => timely call (Part.mem_callsAll.2
        ⟨t.part, parts_eq_map branches ▸ List.mem_map_of_mem mem, within⟩)
    have ended (t : Task) (gone : t.hasEnded = true) (n : Nat) : t.part.endsAt cost n = n := by
      rw [part_of_hasEnded gone, Part.endsAt]
    obtain ⟨b, here, active⟩ := live
    have last {n m : Nat} : (Task.block branches [] handedBack).part.endsAt cost n ≤ m ↔
        n ≤ m ∧ ∀ t ∈ branches, t.part.endsAt cost n ≤ m := by
      rw [part, Part.endsAt, Part.endsLast_le, parts_eq_map, List.forall_mem_map]
    refine ⟨eq_of_forall_ge_iff fun n => ?_, (own b here active).2.trans ?_⟩
    · rw [last, last]
      constructor
      · rintro ⟨now, all⟩
        refine ⟨le.trans now, fun t mem => ?_⟩
        cases gone : t.hasEnded with
        | true => exact (ended t gone clock).trans_le (le.trans now)
        | false => exact (own t mem gone).1 ▸ all t mem
      · rintro ⟨-, all⟩
        -- A branch that waits ends at the instant or later, and so does the block.
        have now : instant ≤ n := (own b here active).2.trans (all b here)
        refine ⟨now, fun t mem => ?_⟩
        cases gone : t.hasEnded with
        | true => exact (ended t gone instant).trans_le now
        | false => exact (own t mem gone).1 ▸ all t mem
    · exact (last.1 (Nat.le_refl _)).2 b here

end Task

namespace Machine

variable {setting : Setting}

theorem GoesOn.endsAt {cost : Invocation → Nat} {cancelAt : Option Nat} {w : World} {task ready : Task}
    {instant : Nat} (goes : GoesOn cancelAt w task instant ready) :
    task.part.endsAt cost instant = task.part.endsAt cost w.clock := by
  cases goes with
  | again => rfl
  | fires due => exact (due.awaits.endsAt (Nat.le_of_lt due.later) due.first.least).1

theorem finish_endsAt (single : setting.host.Single) (cancelAt : Option Nat) {w : World}
    {task : Task} (onTime : OnTime w task) :
    (finish setting cancelAt w task).2 = .ok () → (finish setting cancelAt w task).1.clock =
      task.part.endsAt (fun call => setting.host.delay call.name) w.clock := by
  refine finish_induction (motive := fun w task result => result.2 = .ok () →
    result.1.clock = task.part.endsAt (fun call => setting.host.delay call.name) w.clock) ?_ ?_ ?_ onTime
  · intro w task instant deadline due _ _ well
    obtain ⟨failure, fails⟩ := due.awaits.unwind_fails setting
      (max w.clock deadline) [] { w with clock := max w.clock deadline, cancelled := true }
    cases fails.symm.trans well
  · intro w task instant ready w' outcome goes polled well
    refine ((goes.proceeds polled).endsAt single goes.least fun failure fails => ?_).trans goes.endsAt
    cases fails
    cases well
  · intro w task instant ready mid later goes polled _ ih well
    exact (ih well).trans (((goes.proceeds polled).endsAt single goes.least nofun).trans goes.endsAt)

theorem run_endsAt (single : setting.host.Single) (cancelAt : Option Nat) (root : Statement)
    (w : World) (well : (run setting cancelAt root w).2 = .ok ()) :
    (run setting cancelAt root w).1.clock =
      w.clock + root.criticalPath fun call => setting.host.delay call.name := by
  rw [← root.endsAt_part]
  exact finish_endsAt single cancelAt (onTime_fresh w root) well

end Machine

namespace Workflow

/-- The time of a run that ends well is that of its critical path. -/
theorem run_takes_critical_path (workflow : Workflow) (setting : Setting) (cancellation : Cancellation)
    (called : List String) (single : setting.host.Single)
    (well : (workflow.run setting cancellation called).outcome = .ok ()) :
    (workflow.run setting cancellation called).elapsed =
      workflow.root.criticalPath fun call => setting.host.delay call.name :=
  (Machine.run_endsAt single cancellation.at? workflow.root _ well).trans (Nat.zero_add _)

def lanes : Workflow :=
  .ofTree .empty (.parallel [
    .sequence [.invocation { name := "first" }, .invocation { name := "second" }],
    .invocation { name := "beside" }])

def inLanes : Setting where
  host := ⟨[("first", .scripted [[.delay 3]]), ("second", .scripted [[.delay 4]]),
    ("beside", .scripted [[.delay 5]])], false⟩

theorem lanes_take : (lanes.run inLanes {} []).outcome = .ok () ∧
    (lanes.run inLanes {} []).elapsed = 7 := by
  obtain ⟨w, ended⟩ : ∃ w, Machine.run inLanes none lanes.root (lanes.world [] false) = (w, .ok ()) :=
    ⟨_, Machine.run_of_after 5 rfl⟩
  have well : (lanes.run inLanes {} []).outcome = .ok () := by rw [run, ended]; rfl
  have single : inLanes.host.Single := by
    refine Host.single_of_units fun entry mem => ?_
    simp only [inLanes, List.mem_cons, List.not_mem_nil, or_false] at mem
    rcases mem with rfl | rfl | rfl <;> exact ⟨_, rfl⟩
  exact ⟨well, run_takes_critical_path lanes inLanes {} [] single well⟩

end Workflow

end FlowTree

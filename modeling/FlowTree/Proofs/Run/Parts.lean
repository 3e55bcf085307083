import FlowTree.Run.Schedule

/-! A run as rules. What is left of a statement, started or not, is a part; the rules say how a part
goes on in a live scope and how it ends in a cancelled one. They let the branches of a block take
their turns in any order, so that what holds of the rules does not depend on the order of timers, nor on
when a block hands back. -/

set_option autoImplicit false

namespace FlowTree

inductive Part where
  | ended
  | unstarted (invocation : Invocation)
  | calling (call : Call)
  /-- The elements that are left, of which the first has the given index. -/
  | sequence (index : Nat) (elements : List Part)
  /-- A block with the failures that it has observed. -/
  | block (branches : List Part) (failures : List Failure)

mutual

def Statement.part : Statement → Part
  | .noop => .ended
  | .invocation call => .unstarted call
  | .sequence elements => .sequence 0 (Statement.parts elements)
  | .parallel branches => .block (Statement.parts branches) []

def Statement.parts : List Statement → List Part
  | [] => []
  | s :: rest => Statement.part s :: Statement.parts rest

end

mutual

def Task.part : Task → Part
  | .ended => .ended
  | .fresh statement => statement.part
  | .calling call => .calling call
  | .sequence current index rest => .sequence index (Task.part current :: Statement.parts rest)
  | .block branches _ _ => .block (Task.parts branches) []

def Task.parts : List Task → List Part
  | [] => []
  | task :: rest => Task.part task :: Task.parts rest

end

def Part.observed : Part → List Failure
  | .block _ failures => failures
  | _ => []

@[simp] theorem Statement.part_observed (s : Statement) : s.part.observed = [] := by
  cases s <;> rfl

@[simp] theorem Task.part_observed (task : Task) : task.part.observed = [] := by
  cases task with
  | fresh s => exact s.part_observed
  | _ => rfl

theorem Statement.parts_eq_map (statements : List Statement) :
    Statement.parts statements = statements.map Statement.part := by
  induction statements with
  | nil => rfl
  | cons s rest ih => rw [Statement.parts, ih, List.map_cons]

theorem Task.parts_eq_map (tasks : List Task) : Task.parts tasks = tasks.map Task.part := by
  induction tasks with
  | nil => rfl
  | cons task rest ih => rw [Task.parts, ih, List.map_cons]

theorem Task.parts_fresh (statements : List Statement) :
    Task.parts (statements.map .fresh) = Statement.parts statements := by
  rw [Task.parts_eq_map, Statement.parts_eq_map, List.map_map]
  rfl

theorem Task.part_of_hasEnded {task : Task} (gone : task.hasEnded = true) : task.part = .ended := by
  cases task <;> first | rfl | cases gone

theorem Task.parts_ended {tasks : List Task} (all : tasks.all hasEnded = true) :
    ∀ b ∈ Task.parts tasks, b = .ended := by
  intro b mem
  rw [parts_eq_map] at mem
  obtain ⟨task, found, rfl⟩ := List.mem_map.1 mem
  exact part_of_hasEnded (List.all_eq_true.1 all task found)

theorem FailureMode.settle_fails (mode : FailureMode) {failures : List Failure} (some : failures ≠ []) :
    ∃ failure, mode.settle failures = .error failure := by
  cases failures with
  | nil => exact absurd rfl some
  | cons first later => cases mode <;> exact ⟨_, rfl⟩

namespace Part

/-- A part that waits: a call, or a sequence at a part that waits, or a block in which every branch
waits that has not ended, and not all have. -/
inductive Busy : Part → Prop where
  | calling (call : Call) : Busy (.calling call)
  | sequence {index : Nat} {current : Part} {rest : List Part} (busy : Busy current) :
    Busy (.sequence index (current :: rest))
  | block {branches : List Part} (busy : ∀ b ∈ branches, b ≠ .ended → Busy b)
    (live : ∃ b ∈ branches, b ≠ .ended) : Busy (.block branches [])

/-- A part of which some call is in flight. -/
inductive Begun : Part → Prop where
  | calling (call : Call) : Begun (.calling call)
  | sequence {index : Nat} {current : Part} {rest : List Part} (begun : Begun current) :
    Begun (.sequence index (current :: rest))
  | block {branches : List Part} {failures : List Failure} {branch : Part} (mem : branch ∈ branches)
    (begun : Begun branch) : Begun (.block branches failures)

theorem Busy.begun {part : Part} (busy : Busy part) : Begun part := by
  induction busy with
  | calling call => exact .calling call
  | sequence _ ih => exact .sequence ih
  | block _ live ih =>
    obtain ⟨b, mem, active⟩ := live
    exact .block mem (ih b mem active)

-- How a part ends whose scope is cancelled. The branches of a block end in any order. Only the block
-- at hand has observed failures: what starts or waits inside it is fresh.
inductive Unwinds (setting : Setting) : Part → Position → World → World → Outcome → Prop where
  | ended {place : Position} {w : World} : Unwinds setting .ended place w w (.ok ())
  | skip {invocation : Invocation} {place : Position} {w : World} :
    Unwinds setting (.unstarted invocation) place w (w.skip place invocation.name)
      (.error .cancelled)
  | call {call : Call} {place : Position} {w w' : World} {failure : Failure}
    (unwound : call.unwind setting w = (w', failure)) :
    Unwinds setting (.calling call) place w w' (.error failure)
  | finished {index : Nat} {place : Position} {w : World} :
    Unwinds setting (.sequence index []) place w w (.ok ())
  | next {index : Nat} {current : Part} {rest : List Statement} {place : Position}
    {w mid w' : World} {outcome : Outcome} (fresh : current.observed = [])
    (first : Unwinds setting current (place ++ [index]) w mid (.ok ()))
    (others : Unwinds setting (.sequence (index + 1) (Statement.parts rest)) place mid w' outcome) :
    Unwinds setting (.sequence index (current :: Statement.parts rest)) place w w' outcome
  | stop {index : Nat} {current : Part} {rest : List Statement} {place : Position} {w w' : World}
    {failure : Failure} (fresh : current.observed = [])
    (first : Unwinds setting current (place ++ [index]) w w' (.error failure)) :
    Unwinds setting (.sequence index (current :: Statement.parts rest)) place w w' (.error failure)
  | drained {branches : List Part} {failures : List Failure} {place : Position} {w : World}
    (all : ∀ b ∈ branches, b = .ended) :
    Unwinds setting (.block branches failures) place w w (setting.mode.settle failures)
  | branchOk {before after : List Part} {branch : Part} {failures : List Failure}
    {place : Position} {w mid w' : World} {outcome : Outcome} (fresh : branch.observed = [])
    (first : Unwinds setting branch (place ++ [before.length]) w mid (.ok ()))
    (others : Unwinds setting (.block (before ++ .ended :: after) failures) place mid w' outcome) :
    Unwinds setting (.block (before ++ branch :: after) failures) place w w' outcome
  | branchFails {before after : List Part} {branch : Part} {failures : List Failure}
    {place : Position} {w mid w' : World} {outcome : Outcome} {failure : Failure}
    {remaining : Nat} (fresh : branch.observed = [])
    (first : Unwinds setting branch (place ++ [before.length]) w mid (.error failure))
    (others : Unwinds setting (.block (before ++ .ended :: after) (failures ++ [failure])) place
      (observe setting.mode place failures remaining failure mid) w' outcome) :
    Unwinds setting (.block (before ++ branch :: after) failures) place w w' outcome

-- How a part goes on in a live scope until it waits or ends. A branch may get several turns before its
-- block rests, or none; a branch that waits is rewritten to what is left of it. The first failure hands
-- the block over to the rules for cancelled scopes.
inductive Proceeds (setting : Setting) : Part → Position → World → World → Progress → Prop where
  | ended {place : Position} {w : World} : Proceeds setting .ended place w w (.ended (.ok ()))
  | skip {invocation : Invocation} {place : Position} {w : World} (late : w.cancelled = true) :
    Proceeds setting (.unstarted invocation) place w (w.skip place invocation.name)
      (.ended (.error .cancelled))
  | start {invocation : Invocation} {place : Position} {w w' : World} {state : Call ⊕ Outcome}
    (live : w.cancelled = false) (started : Call.start setting place invocation w = (w', state)) :
    Proceeds setting (.unstarted invocation) place w w' (.ofCall state)
  | resume {call : Call} {place : Position} {w w' : World} {state : Call ⊕ Outcome}
    (resumed : call.resume setting w = (w', state)) :
    Proceeds setting (.calling call) place w w' (.ofCall state)
  | finished {index : Nat} {place : Position} {w : World} :
    Proceeds setting (.sequence index []) place w w (.ended (.ok ()))
  | wait {index : Nat} {current : Part} {rest : List Statement} {place : Position} {w w' : World}
    {task : Task} (first : Proceeds setting current (place ++ [index]) w w' (.waiting task)) :
    Proceeds setting (.sequence index (current :: Statement.parts rest)) place w w'
      (.waiting (.sequence task index rest))
  | next {index : Nat} {current : Part} {rest : List Statement} {place : Position}
    {w mid w' : World} {progress : Progress}
    (first : Proceeds setting current (place ++ [index]) w mid (.ended (.ok ())))
    (others : Proceeds setting (.sequence (index + 1) (Statement.parts rest)) place mid w' progress) :
    Proceeds setting (.sequence index (current :: Statement.parts rest)) place w w' progress
  | stop {index : Nat} {current : Part} {rest : List Statement} {place : Position} {w w' : World}
    {failure : Failure}
    (first : Proceeds setting current (place ++ [index]) w w' (.ended (.error failure))) :
    Proceeds setting (.sequence index (current :: Statement.parts rest)) place w w'
      (.ended (.error failure))
  | rest {tasks : List Task} {queue : List Nat} {handedBack : Bool} {place : Position} {w : World}
    (begun : tasks.all Task.hasEnded = false → Begun (.block (Task.parts tasks) [])) :
    Proceeds setting (.block (Task.parts tasks) []) place w w (.ofBranches tasks queue handedBack)
  | branchWaits {before after : List Part} {branch : Part} {place : Position}
    {w mid w' : World} {progress : Progress} {task : Task}
    (first : Proceeds setting branch (place ++ [before.length]) w mid (.waiting task))
    (others : Proceeds setting (.block (before ++ task.part :: after) []) place mid w' progress) :
    Proceeds setting (.block (before ++ branch :: after) []) place w w' progress
  | branchOk {before after : List Part} {branch : Part} {place : Position}
    {w mid w' : World} {progress : Progress}
    (first : Proceeds setting branch (place ++ [before.length]) w mid (.ended (.ok ())))
    (others : Proceeds setting (.block (before ++ .ended :: after) []) place mid w' progress) :
    Proceeds setting (.block (before ++ branch :: after) []) place w w' progress
  | branchFails {before after : List Part} {branch : Part} {place : Position}
    {w mid w' : World} {outcome : Outcome} {failure : Failure} {remaining : Nat}
    (first : Proceeds setting branch (place ++ [before.length]) w mid (.ended (.error failure)))
    (others : Unwinds setting (.block (before ++ .ended :: after) [failure]) place
      (observe setting.mode place [] remaining failure mid) w' outcome) :
    Proceeds setting (.block (before ++ branch :: after) []) place w w' (.ended outcome)

/-- How a part comes to its end. Between two turns time moves; the caller's token may be cancelled
then, which ends everything that waits. -/
inductive Finishes (setting : Setting) : Part → World → World → Outcome → Prop where
  | ended {part : Part} {w w' : World} {outcome : Outcome}
    (turn : Proceeds setting part [] w w' (.ended outcome)) : Finishes setting part w w' outcome
  | waits {part : Part} {w mid w' : World} {task : Task} {instant : Nat} {outcome : Outcome}
    (turn : Proceeds setting part [] w mid (.waiting task))
    (later : Finishes setting task.part { mid with clock := instant } w' outcome) :
    Finishes setting part w w' outcome
  | cancelled {part : Part} {w w' : World} {instant : Nat} {outcome : Outcome} (busy : Busy part)
    (unwound : Unwinds setting part [] { w with clock := instant, cancelled := true } w' outcome) :
    Finishes setting part w w' outcome

/-- A block that has observed failures settles with them and with those that it observes later. -/
theorem Unwinds.settles {setting : Setting} {part : Part} {place : Position}
    {w w' : World} {outcome : Outcome} (h : Unwinds setting part place w w' outcome) :
    ∀ branches failures, part = .block branches failures →
      ∃ later, outcome = setting.mode.settle (failures ++ later) := by
  induction h with
  | ended | skip | call | finished | next | stop => nofun
  | drained all =>
    intro branches failures eq
    cases eq
    exact ⟨[], by rw [List.append_nil]⟩
  | branchOk _ _ _ _ ih =>
    intro branches failures eq
    cases eq
    exact ih _ _ rfl
  | @branchFails _ _ _ _ _ _ _ _ _ failure _ _ _ _ _ ih =>
    intro branches failures eq
    cases eq
    obtain ⟨later, settled⟩ := ih _ _ rfl
    refine ⟨failure :: later, ?_⟩
    rw [settled, List.append_assoc, List.singleton_append]

theorem Unwinds.fails_of_failure {setting : Setting} {branches : List Part} {failure : Failure}
    {place : Position} {w w' : World} {outcome : Outcome}
    (h : Unwinds setting (.block branches [failure]) place w w' outcome) :
    ∃ last, outcome = .error last := by
  obtain ⟨later, rfl⟩ := h.settles _ _ rfl
  exact setting.mode.settle_fails (List.cons_ne_nil failure later)

theorem Unwinds.fails_of_begun {setting : Setting} {part : Part} {place : Position}
    {w w' : World} {outcome : Outcome} (h : Unwinds setting part place w w' outcome)
    (begun : Begun part) : ∃ failure, outcome = .error failure := by
  induction h with
  | ended | skip | finished => cases begun
  | call | stop => exact ⟨_, rfl⟩
  | next _ _ _ ih _ =>
    cases begun with
    | sequence begun =>
      -- The current element has a call in flight, so it cannot have ended well.
      obtain ⟨failure, fails⟩ := ih begun
      cases fails
  | drained all =>
    cases begun with
    | block mem begun =>
      rw [all _ mem] at begun
      cases begun
  | @branchOk before after branch failures place w mid w' outcome fresh first others ih later =>
    cases begun with
    | @block _ _ b mem begun =>
      have others : b ∈ before ++ .ended :: after := by
        simp only [List.mem_append, List.mem_cons] at mem ⊢
        rcases mem with mem | rfl | mem
        · exact .inl mem
        · obtain ⟨failure, fails⟩ := ih begun
          cases fails
        · exact .inr (.inr mem)
      exact later (.block others begun)
  | @branchFails before after branch failures place w mid w' outcome failure remaining _ _ others _ _ =>
    obtain ⟨later, rfl⟩ := others.settles _ _ rfl
    exact setting.mode.settle_fails (by simp)

/-- What waits after its turn has a call in flight. -/
theorem Proceeds.begun {setting : Setting} {part : Part} {place : Position} {w w' : World}
    {task : Task} (h : Proceeds setting part place w w' (.waiting task)) : Begun task.part := by
  generalize eq : Progress.waiting task = progress at h
  induction h generalizing task with
  | ended | skip | finished | stop | branchFails => cases eq
  | @start _ _ _ _ state | @resume _ _ _ _ state =>
    rcases state with call | outcome <;> cases eq
    exact .calling _
  | wait first ih =>
    cases eq
    exact .sequence (ih rfl)
  | next first others _ ih => exact ih eq
  | rest begun =>
    obtain ⟨rfl, live⟩ := Task.ofBranches_waiting eq.symm
    exact begun live
  | branchWaits first others _ ih => exact ih eq
  | branchOk first others _ ih => exact ih eq

end Part

end FlowTree

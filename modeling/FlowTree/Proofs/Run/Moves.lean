import FlowTree.Proofs.Run.Calls
import FlowTree.Proofs.Run.Rules
import Mathlib.Algebra.Order.Group.Multiset
import Mathlib.Data.Multiset.OrderedMonoid
import Mathlib.Logic.Relation

/-! A turn without its tree. What a turn does to the world it does in moves: a call starts, goes on,
ends or is skipped, or a block takes note of a failure. A flight is the world with the calls that are
still to start and those that are under way; a turn is first calm, and after its first failure it only
drains. -/

set_option autoImplicit false

namespace FlowTree

open Relation (ReflTransGen)

abbrev Site := Position × Invocation

namespace Part

mutual

def calls : Part → Multiset Call
  | .ended => 0
  | .unstarted _ => 0
  | .calling call => {call}
  | .sequence _ elements => callsAll elements
  | .block branches _ => callsAll branches

def callsAll : List Part → Multiset Call
  | [] => 0
  | part :: rest => calls part + callsAll rest

end

mutual

def todo : Part → Position → Multiset Site
  | .ended, _ => 0
  | .unstarted invocation, place => {(place, invocation)}
  | .calling _, _ => 0
  | .sequence index elements, place => todoFrom elements place index
  | .block branches _, place => todoFrom branches place 0

def todoFrom : List Part → Position → Nat → Multiset Site
  | [], _, _ => 0
  | part :: rest, place, index => todo part (place ++ [index]) + todoFrom rest place (index + 1)

end

-- One branch of a block apart from the others; the failures of the block do not count.
theorem calls_block (before : List Part) (part : Part) (after : List Part)
    (failures later : List Failure) :
    (block (before ++ part :: after) failures).calls =
      part.calls + (block (before ++ .ended :: after) later).calls := by
  simp only [calls]
  induction before with
  | nil => simp only [List.nil_append, callsAll, calls, zero_add]
  | cons head rest ih => simp only [List.cons_append, callsAll, ih, add_left_comm]

theorem todoFrom_split (before : List Part) (part : Part) (after : List Part) (place : Position)
    (index : Nat) :
    todoFrom (before ++ part :: after) place index =
      part.todo (place ++ [index + before.length]) +
        todoFrom (before ++ .ended :: after) place index := by
  induction before generalizing index with
  | nil => simp only [List.nil_append, todoFrom, todo, zero_add, List.length_nil, add_zero]
  | cons head rest ih =>
    have shifted : index + 1 + rest.length = index + (rest.length + 1) := by omega
    simp only [List.cons_append, todoFrom, ih, List.length_cons, shifted, add_left_comm]

theorem todo_block (before : List Part) (part : Part) (after : List Part)
    (failures later : List Failure) (place : Position) :
    (block (before ++ part :: after) failures).todo place =
      part.todo (place ++ [before.length]) +
        (block (before ++ .ended :: after) later).todo place := by
  simp only [todo, todoFrom_split before part after, zero_add]

theorem callsAll_ended {parts : List Part} (all : ∀ b ∈ parts, b = .ended) : callsAll parts = 0 := by
  induction parts with
  | nil => rfl
  | cons head rest ih =>
    cases all head List.mem_cons_self
    rw [callsAll, ih fun b mem => all b (List.mem_cons_of_mem _ mem)]
    rfl

theorem todoFrom_ended {parts : List Part} (all : ∀ b ∈ parts, b = .ended) (place : Position)
    (index : Nat) : todoFrom parts place index = 0 := by
  induction parts generalizing index with
  | nil => rfl
  | cons head rest ih =>
    cases all head List.mem_cons_self
    rw [todoFrom, ih fun b mem => all b (List.mem_cons_of_mem _ mem)]
    rfl

end Part

theorem Statement.calls_part (s : Statement) : s.part.calls = 0 := by
  have none (parts : List Statement) (each : ∀ s ∈ parts, s.part.calls = 0) :
      Part.callsAll (Statement.parts parts) = 0 := by
    induction parts with
    | nil => rfl
    | cons s rest ih =>
      rw [Statement.parts, Part.callsAll, each s List.mem_cons_self,
        ih fun s mem => each s (List.mem_cons_of_mem _ mem), add_zero]
  induction s with
  | noop | invocation => rfl
  | sequence elements ih => exact none elements ih
  | parallel branches ih => exact none branches ih

theorem Part.calls_rest (index : Nat) (rest : List Statement) :
    (Part.sequence index (Statement.parts rest)).calls = 0 :=
  (Statement.sequence rest).calls_part

theorem Part.calls_sequence (index : Nat) (current : Part) (rest : List Statement) :
    (Part.sequence index (current :: Statement.parts rest)).calls = current.calls := by
  have later := calls_rest index rest
  simp only [calls, callsAll] at later ⊢
  rw [later, add_zero]

/-- The entries about a block and not about a call. -/
inductive Happening.Notes : Happening → Prop where
  | branchFailed (place : Position) (failure : Failure) (remaining : Nat) :
    Notes (.branchFailed place failure remaining)
  | discarded (place : Position) (failure : Failure) : Notes (.discarded place failure)

/-- A block notes a failure, in the log and in the trace. -/
inductive World.Notes (w : World) : World → Prop where
  | branchFailed (place : Position) (failure : Failure) (remaining : Nat) :
    Notes w ((w.log ⟨.warn, "parallel branch failed, cancelling siblings",
      [("error", failure.message), ("remaining", Text.decimal remaining)]⟩).emit
        (.branchFailed place failure remaining))
  | discarded (place : Position) (failure : Failure) :
    Notes w ((w.log ⟨.debug, "discarding later parallel failure",
      [("error", failure.message)]⟩).emit (.discarded place failure))

theorem World.Notes.emits {w w' : World} (notes : w.Notes w') :
    ∃ mid entry, w.Tells mid ∧ w' = mid.emit entry ∧ entry.Notes := by
  cases notes with
  | branchFailed => exact ⟨_, _, .intro _ _, rfl, .branchFailed _ _ _⟩
  | discarded => exact ⟨_, _, .intro _ _, rfl, .discarded _ _⟩

theorem observe_notes (mode : FailureMode) (place : Position) (earlier : List Failure)
    (remaining : Nat) (failure : Failure) (w : World) :
    observe mode place earlier remaining failure w = w ∨
      w.Notes (observe mode place earlier remaining failure w) := by
  unfold observe
  split
  · exact .inr (.branchFailed _ _ _)
  · split
    · exact .inl rfl
    · exact .inr (.discarded _ _)
  · exact .inl rfl

namespace Part

theorem mem_callsAll {parts : List Part} {call : Call} :
    call ∈ callsAll parts ↔ ∃ part ∈ parts, call ∈ part.calls := by
  induction parts with
  | nil => simp [callsAll]
  | cons part rest ih => simp [callsAll, ih]

theorem callsAll_eq_zero {parts : List Part} : callsAll parts = 0 ↔ ∀ b ∈ parts, b.calls = 0 := by
  induction parts with
  | nil => exact ⟨fun _ => nofun, fun _ => rfl⟩
  | cons head rest ih => rw [callsAll, add_eq_zero, List.forall_mem_cons, ih]

theorem Begun.calls_ne_zero {part : Part} (begun : Begun part) : part.calls ≠ 0 := by
  induction begun with
  | calling call => exact Multiset.singleton_ne_zero call
  | sequence _ ih =>
    intro idle
    exact ih (callsAll_eq_zero.1 idle _ List.mem_cons_self)
  | block mem _ ih =>
    intro idle
    exact ih (callsAll_eq_zero.1 idle _ mem)

end Part

def Progress.rest : Progress → Part
  | .waiting task => task.part
  | .ended _ => .ended

/-- What has not started of a statement that waits; nothing is left of one that has ended. -/
def Progress.todo (place : Position) : Progress → Multiset Site
  | .waiting task => task.part.todo place
  | .ended _ => 0

def Progress.calls : Progress → Multiset Call
  | .waiting task => task.part.calls
  | .ended _ => 0

theorem Progress.todo_ofCall (place : Position) (state : Call ⊕ Outcome) :
    (ofCall state).todo place = 0 := by
  cases state <;> rfl

/-- The world, the calls that are still to start and the calls that are under way. -/
structure Flight where
  world : World
  todo : Multiset Site
  calls : Multiset Call

/-- How a run stands: nothing has failed, the first failure happens, or everything else ends. -/
inductive Phase where
  | calm | fall | drain

namespace Phase

variable {State : Type} (step step' : Phase → State → State → Prop)

def Calm : State → State → Prop := ReflTransGen (step .calm)

def Drains : State → State → Prop := ReflTransGen (step .drain)

/-- Calm steps up to the first failure, and then only steps that drain. -/
def Falls (a b : State) : Prop :=
  ∃ before after, Calm step a before ∧ step .fall before after ∧ Drains step after b

def Leads : Progress → State → State → Prop
  | .ended (.error _) => Falls step
  | _ => Calm step

def Through : Phase → State → State → Prop
  | .calm => Calm step
  | .fall => Falls step
  | .drain => Drains step

def ofCall : Call ⊕ Outcome → Phase
  | .inr (.error _) => .fall
  | _ => .calm

variable {step step'} {a b c : State} {progress : Progress}

theorem Falls.drains (falls : Falls step a b) (drains : Drains step b c) : Falls step a c := by
  obtain ⟨before, after, calm, fall, drained⟩ := falls
  exact ⟨before, after, calm, fall, drained.trans drains⟩

theorem Falls.of_calm (calm : Calm step a b) (falls : Falls step b c) : Falls step a c := by
  obtain ⟨before, after, later, fall, drained⟩ := falls
  exact ⟨before, after, calm.trans later, fall, drained⟩

theorem Leads.of_calm (calm : Calm step a b) (leads : Leads step progress b c) :
    Leads step progress a c := by
  cases progress with
  | waiting task => exact calm.trans leads
  | ended outcome =>
    cases outcome with
    | ok => exact calm.trans leads
    | error failure => exact Falls.of_calm calm leads

theorem Leads.of_call {state : Call ⊕ Outcome} (once : step (ofCall state) a b) :
    Leads step (.ofCall state) a b := by
  cases state with
  | inl call => exact .single once
  | inr outcome =>
    cases outcome with
    | ok => exact .single once
    | error failure => exact ⟨a, b, .refl, once, .refl⟩

theorem Through.single {phase : Phase} (once : step phase a b) : Through step phase a b := by
  cases phase with
  | calm => exact ReflTransGen.single once
  | fall => exact ⟨a, b, .refl, once, .refl⟩
  | drain => exact ReflTransGen.single once

theorem Through.of_calm {state : Call ⊕ Outcome} (calm : Calm step a b)
    (through : Through step (ofCall state) b c) : Through step (ofCall state) a c := by
  cases state with
  | inl call => exact calm.trans through
  | inr outcome =>
    cases outcome with
    | ok => exact calm.trans through
    | error failure => exact Falls.of_calm calm through

theorem Leads.refine (finer : ∀ {phase a b}, step phase a b → Through step' phase a b)
    (leads : Leads step progress a b) : Leads step' progress a b := by
  have calm {a b : State} (steps : Calm step a b) : Calm step' a b := by
    induction steps with
    | refl => exact .refl
    | tail _ last ih => exact ih.trans (finer last)
  have drains {a b : State} (steps : Drains step a b) : Drains step' a b := by
    induction steps with
    | refl => exact .refl
    | tail _ last ih => exact ih.trans (finer last)
  have falls (falls : Falls step a b) : Falls step' a b := by
    obtain ⟨before, after, first, fall, last⟩ := falls
    exact Falls.of_calm (calm first) (Falls.drains (finer fall) (drains last))
  cases progress with
  | waiting task => exact calm leads
  | ended outcome =>
    cases outcome with
    | ok => exact calm leads
    | error failure => exact falls leads

theorem Through.keeps {motive : State → Prop}
    (kept : ∀ {phase a b}, step phase a b → motive a → motive b) {phase : Phase}
    (through : Through step phase a b) (start : motive a) : motive b := by
  have many {phase : Phase} {a b : State} (steps : ReflTransGen (step phase) a b)
      (start : motive a) : motive b := by
    induction steps with
    | refl => exact start
    | tail _ last ih => exact kept last ih
  cases phase with
  | calm => exact many through start
  | fall =>
    obtain ⟨before, after, calm, fall, drains⟩ := through
    exact many drains (kept fall (many calm start))
  | drain => exact many through start

theorem Leads.keeps {motive : State → Prop}
    (kept : ∀ {phase a b}, step phase a b → motive a → motive b)
    (leads : Leads step progress a b) (start : motive a) : motive b := by
  cases progress with
  | waiting task => exact Through.keeps kept (show Through step .calm a b from leads) start
  | ended outcome =>
    cases outcome with
    | ok => exact Through.keeps kept (show Through step .calm a b from leads) start
    | error failure => exact Through.keeps kept (show Through step .fall a b from leads) start

end Phase

namespace Flight

inductive Move (setting : Setting) : Phase → Flight → Flight → Prop where
  | start {place : Position} {invocation : Invocation} {w w' : World} {state : Call ⊕ Outcome}
    {todo : Multiset Site} {calls : Multiset Call} (live : w.cancelled = false)
    (started : Call.start setting place invocation w = (w', state)) :
    Move setting (.ofCall state) ⟨w, (place, invocation) ::ₘ todo, calls⟩
      ⟨w', todo, (Progress.ofCall state).calls + calls⟩
  | resume {call : Call} {w w' : World} {state : Call ⊕ Outcome} {todo : Multiset Site}
    {calls : Multiset Call} (resumed : call.resume setting w = (w', state)) :
    Move setting (.ofCall state) ⟨w, todo, call ::ₘ calls⟩
      ⟨w', todo, (Progress.ofCall state).calls + calls⟩
  | unwind {call : Call} {w w' : World} {failure : Failure} {todo : Multiset Site}
    {calls : Multiset Call} (unwound : call.unwind setting w = (w', failure)) :
    Move setting .drain ⟨w, todo, call ::ₘ calls⟩ ⟨w', todo, calls⟩
  | skip {phase : Phase} {place : Position} {invocation : Invocation} {w : World}
    {todo : Multiset Site} {calls : Multiset Call} (late : phase ≠ .calm) :
    Move setting phase ⟨w, (place, invocation) ::ₘ todo, calls⟩
      ⟨w.skip place invocation.name, todo, calls⟩
  /-- What comes after a failed element of a sequence is not reached. -/
  | forget {w : World} {todo : Multiset Site} {calls : Multiset Call} (lost : Multiset Site) :
    Move setting .drain ⟨w, lost + todo, calls⟩ ⟨w, todo, calls⟩
  | note {w w' : World} {todo : Multiset Site} {calls : Multiset Call} (notes : w.Notes w') :
    Move setting .drain ⟨w, todo, calls⟩ ⟨w', todo, calls⟩

theorem observe_drains {setting : Setting} (mode : FailureMode) (place : Position)
    (earlier : List Failure) (remaining : Nat) (failure : Failure) (w : World)
    {todo : Multiset Site} {calls : Multiset Call} :
    Phase.Drains (Move setting) ⟨w, todo, calls⟩
      ⟨observe mode place earlier remaining failure w, todo, calls⟩ := by
  rcases observe_notes mode place earlier remaining failure w with same | notes
  · rw [same]
    exact .refl
  · exact .single (.note notes)

end Flight

theorem Progress.ofBranches_calm (setting : Setting) (tasks : List Task) (queue : List Nat)
    (handedBack : Bool) (place : Position) (w : World) (rest : Multiset Site) (others : Multiset Call) :
    Phase.Leads (Flight.Move setting) (.ofBranches tasks queue handedBack)
      ⟨w, (Part.block (Task.parts tasks) []).todo place + rest,
        (Part.block (Task.parts tasks) []).calls + others⟩
      ⟨w, (ofBranches tasks queue handedBack).todo place + rest,
        (ofBranches tasks queue handedBack).calls + others⟩ := by
  unfold ofBranches
  split
  · next all =>
    have ended := Task.parts_ended all
    rw [Part.todo, Part.todoFrom_ended ended, Part.calls, Part.callsAll_ended ended]
    exact .refl
  · exact .refl

namespace Part

open Flight (Move)
open Phase (Drains Falls Leads)

variable {setting : Setting}

-- A part whose scope is cancelled drains, and nothing of it is left. What the parts around it have to
-- start (`rest`) and in flight (`others`) is not touched, so that the moves of branches can be joined.
theorem Unwinds.drains {part : Part} {place : Position} {w w' : World} {outcome : Outcome}
    (h : Unwinds setting part place w w' outcome) (rest : Multiset Site) (others : Multiset Call) :
    Drains (Move setting) ⟨w, part.todo place + rest, part.calls + others⟩ ⟨w', rest, others⟩ := by
  induction h generalizing rest others with
  | ended =>
    rw [calls, zero_add, todo, zero_add]
    exact .refl
  | skip =>
    rw [calls, zero_add, todo, Multiset.singleton_add]
    exact .single (.skip nofun)
  | call unwound =>
    rw [calls, todo, zero_add, Multiset.singleton_add]
    exact .single (.unwind unwound)
  | finished =>
    rw [calls, callsAll, todo, todoFrom, zero_add, zero_add]
    exact .refl
  | @next index current elements place w mid w' outcome fresh first later ih drains =>
    specialize drains rest others
    rw [calls_rest, zero_add] at drains
    rw [calls_sequence, todo, todoFrom, add_assoc]
    exact (ih _ _).trans drains
  | stop _ first ih =>
    -- The elements after the failed one are never reached.
    rw [calls_sequence, todo, todoFrom, add_assoc]
    exact (ih _ _).tail (.forget _)
  | drained all =>
    rw [calls, callsAll_ended all, todo, todoFrom_ended all, zero_add, zero_add]
    exact .refl
  | @branchOk before after branch failures place w mid w' outcome fresh first later ih drains =>
    rw [calls_block _ _ _ _ failures, todo_block _ _ _ _ failures, add_assoc, add_assoc]
    exact (ih _ _).trans (drains _ _)
  | @branchFails before after branch failures place w mid w' outcome failure remaining fresh first
      later ih drains =>
    rw [calls_block _ _ _ _ (failures ++ [failure]), todo_block _ _ _ _ (failures ++ [failure]),
      add_assoc, add_assoc]
    exact ((ih _ _).trans (Flight.observe_drains _ _ _ _ _ _)).trans (drains _ _)

theorem Proceeds.leads {part : Part} {place : Position} {w w' : World} {progress : Progress}
    (h : Proceeds setting part place w w' progress) (rest : Multiset Site)
    (others : Multiset Call) :
    Leads (Move setting) progress ⟨w, part.todo place + rest, part.calls + others⟩
      ⟨w', progress.todo place + rest, progress.calls + others⟩ := by
  induction h generalizing rest others with
  | ended =>
    rw [calls, todo]
    exact .refl
  | skip =>
    rw [calls, zero_add, todo, Multiset.singleton_add, Progress.todo, Progress.calls, zero_add,
      zero_add]
    exact ⟨_, _, .refl, .skip nofun, .refl⟩
  | start live started =>
    rw [calls, zero_add, todo, Multiset.singleton_add, Progress.todo_ofCall, zero_add]
    exact .of_call (.start live started)
  | resume resumed =>
    rw [calls, todo, zero_add, Multiset.singleton_add, Progress.todo_ofCall, zero_add]
    exact .of_call (.resume resumed)
  | finished =>
    rw [calls, callsAll, todo, todoFrom]
    exact .refl
  | @wait index current elements place w w' task first ih =>
    have eq : (Progress.waiting (.sequence task index elements)).calls =
        (Progress.waiting task).calls := calls_sequence index task.part elements
    rw [calls_sequence, todo, todoFrom, add_assoc, eq, Progress.todo, Task.part, todo, todoFrom,
      add_assoc]
    exact ih _ _
  | @next index current elements place w mid w' progress first later ih leads =>
    specialize leads rest others
    rw [calls_rest, zero_add] at leads
    rw [calls_sequence, todo, todoFrom, add_assoc]
    have calm := ih (todoFrom (Statement.parts elements) place (index + 1) + rest) others
    rw [Progress.todo, Progress.calls, zero_add, zero_add] at calm
    exact .of_calm calm leads
  | @stop index current elements place w w' failure first ih =>
    rw [calls_sequence, todo, todoFrom, add_assoc]
    have falls := ih (todoFrom (Statement.parts elements) place (index + 1) + rest) others
    rw [Progress.todo, Progress.calls, zero_add, zero_add] at falls ⊢
    exact Falls.drains falls (.single (.forget _))
  | rest => exact Progress.ofBranches_calm setting _ _ _ _ _ rest others
  | branchWaits first later ih leads =>
    rw [calls_block _ _ _ _ [], todo_block _ _ _ _ [], add_assoc, add_assoc]
    refine .of_calm (ih _ _) ?_
    specialize leads rest others
    rw [calls_block _ _ _ _ [], todo_block _ _ _ _ [], add_assoc, add_assoc] at leads
    exact leads
  | branchOk first later ih leads =>
    rw [calls_block _ _ _ _ [], todo_block _ _ _ _ [], add_assoc, add_assoc]
    refine .of_calm (ih _ _) ?_
    rw [Progress.todo, Progress.calls, zero_add, zero_add]
    exact leads rest others
  | @branchFails before after branch place w mid w' outcome failure remaining first later ih =>
    obtain ⟨last, rfl⟩ := later.fails_of_failure
    rw [calls_block _ _ _ _ [failure], todo_block _ _ _ _ [failure], add_assoc, add_assoc]
    have falls := ih ((block (before ++ .ended :: after) [failure]).todo place + rest)
      ((block (before ++ .ended :: after) [failure]).calls + others)
    rw [Progress.todo, Progress.calls, zero_add, zero_add] at falls ⊢
    have drains := later.drains rest others
    exact Falls.drains falls (.trans (Flight.observe_drains _ _ _ _ _ _) drains)

end Part

end FlowTree

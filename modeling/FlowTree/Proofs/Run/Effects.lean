import FlowTree.Proofs.Run.Entries
import FlowTree.Proofs.Run.Parts
import FlowTree.Proofs.Run.Scripts

/-! What the calls of a statement do to the store, apart from when they do it. An action is what is
left of one call; actions that touch different names can be done in either order. -/

set_option autoImplicit false

namespace FlowTree

/-- The names that are read and the one that is written. -/
structure Access where
  reads : List String
  writes : Option String

namespace Access

/-- Neither access writes what the other one reads or writes. -/
structure Independent (a b : Access) : Prop where
  left : ∀ name, a.writes = some name → name ∉ b.reads ∧ b.writes ≠ some name
  right : ∀ name, b.writes = some name → name ∉ a.reads ∧ a.writes ≠ some name

theorem Independent.symm {a b : Access} (independent : a.Independent b) : b.Independent a :=
  ⟨independent.right, independent.left⟩

structure Narrows (a b : Access) : Prop where
  reads : a.reads ⊆ b.reads
  writes : a.writes = b.writes

theorem Independent.narrow {a b c : Access} (independent : a.Independent b) (narrows : c.Narrows a) :
    c.Independent b := by
  constructor
  · rw [narrows.writes]
    exact independent.left
  · intro name writes
    obtain ⟨unread, apart⟩ := independent.right name writes
    exact ⟨fun mem => unread (narrows.reads mem), narrows.writes ▸ apart⟩

end Access

def Invocation.access (call : Invocation) : Access := ⟨call.arguments, call.result⟩

namespace Store

def write (store : Store) (result : Option String) (output : String) : Store :=
  match result with
  | some name => store.insert name output
  | none => store

theorem resolve_write (store : Store) {result : Option String} {names : List String}
    (unread : ∀ name, result = some name → name ∉ names) (output : String) :
    (store.write result output).resolve names = store.resolve names := by
  cases result with
  | none => rfl
  | some name =>
    refine List.map_congr_left fun other mem => ?_
    have apart : other ≠ name := fun same => unread name rfl (same ▸ mem)
    rw [write, NameMap.get?_insert, if_neg apart]

theorem write_comm (store : Store) {result other : Option String}
    (apart : ∀ name, result = some name → other ≠ some name) (output value : String) :
    (store.write result output).write other value =
      (store.write other value).write result output := by
  cases result with
  | none => rfl
  | some name =>
    cases other with
    | none => rfl
    | some second =>
      have differ : second ≠ name := fun same => apart name rfl (congrArg some same)
      refine NameMap.ext_get fun key => ?_
      simp only [write, NameMap.get?_insert]
      by_cases first : key = name
      · rw [if_pos first, if_neg (first ▸ differ.symm), if_pos first]
      · rw [if_neg first, if_neg first]

end Store

/-- A call as it goes out, with its place in the tree. -/
structure Request where
  place : Position
  name : String
  inputs : List String
  deriving DecidableEq

def Happening.request? : Happening → Option Request
  | .started place name inputs _ => some ⟨place, name, inputs⟩
  | _ => none

def Trace.requests (trace : Trace) : List Request := trace.filterMap Happening.request?

/-- The store, and the calls that have gone out, in whatever order. -/
structure Ledger where
  store : Store
  requests : Multiset Request

def World.ledger (w : World) : Ledger := ⟨w.store, ↑w.trace.requests⟩

namespace Ledger

def write (l : Ledger) (result : Option String) (output : String) : Ledger :=
  { l with store := l.store.write result output }

def ask (outputs : String → List String → String) (l : Ledger) (place : Position)
    (call : Invocation) : Ledger :=
  let inputs := l.store.resolve call.arguments
  write ⟨l.store, ⟨place, call.name, inputs⟩ ::ₘ l.requests⟩ call.result (outputs call.name inputs)

end Ledger

/-- What is left of a call: all of it, or the write of its output. -/
inductive Action where
  | ask (place : Position) (call : Invocation)
  | give (result : Option String) (output : String)

namespace Action

def access : Action → Access
  | .ask _ call => call.access
  | .give result _ => ⟨[], result⟩

variable {outputs : String → List String → String}

def perform (outputs : String → List String → String) (l : Ledger) : Action → Ledger
  | .ask place call => l.ask outputs place call
  | .give result output => l.write result output

theorem perform_comm (outputs : String → List String → String) {a b : Action}
    (independent : a.access.Independent b.access) (l : Ledger) :
    b.perform outputs (a.perform outputs l) = a.perform outputs (b.perform outputs l) := by
  have apart : ∀ name, a.access.writes = some name → b.access.writes ≠ some name :=
    fun name writes => (independent.left name writes).2
  have unread : ∀ name, a.access.writes = some name → name ∉ b.access.reads :=
    fun name writes => (independent.left name writes).1
  have unread' : ∀ name, b.access.writes = some name → name ∉ a.access.reads :=
    fun name writes => (independent.right name writes).1
  cases a with
  | ask place call =>
    cases b with
    | ask place' call' =>
      simp only [access, Invocation.access] at apart unread unread'
      simp only [perform, Ledger.ask, Ledger.write, Store.resolve_write _ unread,
        Store.resolve_write _ unread', Store.write_comm _ apart, Multiset.cons_swap]
    | give result output =>
      simp only [access, Invocation.access] at apart unread'
      simp only [perform, Ledger.ask, Ledger.write, Store.resolve_write _ unread',
        Store.write_comm _ apart]
  | give result output =>
    cases b with
    | ask place' call' =>
      simp only [access, Invocation.access] at apart unread
      simp only [perform, Ledger.ask, Ledger.write, Store.resolve_write _ unread,
        Store.write_comm _ apart]
    | give result' output' =>
      simp only [access] at apart
      simp only [perform, Ledger.write, Store.write_comm _ apart]

def performAll (outputs : String → List String → String) (l : Ledger) (actions : List Action) :
    Ledger :=
  actions.foldl (fun l action => action.perform outputs l) l

theorem performAll_append (l : Ledger) (first later : List Action) :
    performAll outputs l (first ++ later) = performAll outputs (performAll outputs l first) later :=
  List.foldl_append

theorem perform_past (outputs : String → List String → String) {a : Action} {later : List Action}
    (apart : ∀ b ∈ later, a.access.Independent b.access) (l : Ledger) :
    performAll outputs (a.perform outputs l) later =
      a.perform outputs (performAll outputs l later) := by
  induction later generalizing l with
  | nil => rfl
  | cons b rest ih =>
    have head := perform_comm outputs (apart b List.mem_cons_self) l
    calc performAll outputs (b.perform outputs (a.perform outputs l)) rest
        = performAll outputs (a.perform outputs (b.perform outputs l)) rest := by rw [head]
      _ = a.perform outputs (performAll outputs (b.perform outputs l) rest) :=
        ih (fun b mem => apart b (List.mem_cons_of_mem _ mem)) _

theorem performAll_comm {first later : List Action}
    (independent : ∀ a ∈ first, ∀ b ∈ later, a.access.Independent b.access) (l : Ledger) :
    performAll outputs (performAll outputs l first) later =
      performAll outputs (performAll outputs l later) first := by
  induction first generalizing l with
  | nil => rfl
  | cons a rest ih =>
    have past := perform_past outputs (independent a List.mem_cons_self) l
    calc performAll outputs (performAll outputs (a.perform outputs l) rest) later
        = performAll outputs (performAll outputs (a.perform outputs l) later) rest :=
          ih (fun a mem => independent a (List.mem_cons_of_mem _ mem)) _
      _ = performAll outputs (a.perform outputs (performAll outputs l later)) rest := by rw [past]

end Action

def Request.unplaced (request : Request) : Request := { request with place := [] }

def Ledger.unplaced (l : Ledger) : Ledger := { l with requests := l.requests.map Request.unplaced }

namespace Action

variable {outputs : String → List String → String}

def unplaced : Action → Action
  | .ask _ call => .ask [] call
  | .give result output => .give result output

theorem perform_unplaced (l : Ledger) (a : Action) :
    (a.perform outputs l).unplaced = a.unplaced.perform outputs l.unplaced := by
  cases a with
  | ask place call =>
    simp only [unplaced, perform, Ledger.ask, Ledger.write, Ledger.unplaced, Multiset.map_cons]
    rfl
  | give result output => rfl

theorem performAll_congr {other : String → List String → String} {actions : List Action}
    (same : ∀ a ∈ actions, ∀ l, a.perform other l = a.perform outputs l) (l : Ledger) :
    performAll other l actions = performAll outputs l actions := by
  induction actions generalizing l with
  | nil => rfl
  | cons a rest ih =>
    have tail := ih (fun b mem => same b (List.mem_cons_of_mem _ mem)) (a.perform outputs l)
    exact (congrArg (performAll other · rest) (same a List.mem_cons_self l)).trans tail

theorem performAll_unplaced (l : Ledger) (actions : List Action) :
    (performAll outputs l actions).unplaced =
      performAll outputs l.unplaced (actions.map unplaced) := by
  induction actions generalizing l with
  | nil => rfl
  | cons a rest ih => exact (ih _).trans (by rw [perform_unplaced]; rfl)

end Action

def Answer.output : Answer → String
  | .ok output => output
  | .error _ => ""

def Call.output (call : Call) : String := (call.rest.answer call.echo).output

namespace Part

mutual

def actions : Part → Position → List Action
  | .ended, _ => []
  | .unstarted call, place => [.ask place call]
  | .calling call, _ => [.give call.result call.output]
  | .sequence index elements, place => actionsFrom elements place index
  | .block branches _, place => actionsFrom branches place 0

def actionsFrom : List Part → Position → Nat → List Action
  | [], _, _ => []
  | part :: rest, place, index =>
    actions part (place ++ [index]) ++ actionsFrom rest place (index + 1)

end

mutual

def accesses : Part → List Access
  | .ended => []
  | .unstarted call => [call.access]
  | .calling call => [⟨[], call.result⟩]
  | .sequence _ elements => accessesAll elements
  | .block branches _ => accessesAll branches

def accessesAll : List Part → List Access
  | [] => []
  | part :: rest => accesses part ++ accessesAll rest

end

mutual

theorem actions_access : (part : Part) → (place : Position) →
    (part.actions place).map Action.access = part.accesses
  | .ended, _ => rfl
  | .unstarted _, _ => rfl
  | .calling _, _ => rfl
  | .sequence index elements, place => actionsFrom_access elements place index
  | .block branches _, place => actionsFrom_access branches place 0

theorem actionsFrom_access : (parts : List Part) → (place : Position) → (index : Nat) →
    (actionsFrom parts place index).map Action.access = accessesAll parts
  | [], _, _ => rfl
  | part :: rest, place, index => by
    rw [actionsFrom, List.map_append, actions_access part, actionsFrom_access rest, accessesAll]

end

theorem accessesAll_eq (parts : List Part) : accessesAll parts = parts.flatMap accesses := by
  induction parts with
  | nil => rfl
  | cons part rest ih => rw [accessesAll, ih, List.flatMap_cons]

theorem mem_accessesAll {parts : List Part} {access : Access} :
    access ∈ accessesAll parts ↔ ∃ part ∈ parts, access ∈ part.accesses := by
  rw [accessesAll_eq, List.mem_flatMap]

theorem actionsFrom_append (before after : List Part) (place : Position) (index : Nat) :
    actionsFrom (before ++ after) place index =
      actionsFrom before place index ++ actionsFrom after place (index + before.length) := by
  induction before generalizing index with
  | nil => rfl
  | cons part rest ih =>
    have shifted : index + 1 + rest.length = index + (rest.length + 1) := by omega
    simp only [List.cons_append, actionsFrom, ih, List.length_cons, shifted, List.append_assoc]

theorem actionsFrom_ended {parts : List Part} (all : ∀ b ∈ parts, b = .ended) (place : Position)
    (index : Nat) : actionsFrom parts place index = [] := by
  induction parts generalizing index with
  | nil => rfl
  | cons head rest ih =>
    cases all head List.mem_cons_self
    exact ih (fun b mem => all b (List.mem_cons_of_mem _ mem)) _

def Independent (p q : Part) : Prop :=
  ∀ a ∈ p.accesses, ∀ b ∈ q.accesses, a.Independent b

def Narrows (p q : Part) : Prop := ∀ a ∈ p.accesses, ∃ b ∈ q.accesses, a.Narrows b

variable {p q r : Part}

theorem Independent.symm (independent : p.Independent q) : q.Independent p :=
  fun b mem a mem' => (independent a mem' b mem).symm

theorem Independent.narrow (independent : p.Independent q) (narrows : r.Narrows p) :
    r.Independent q := by
  intro c mem b mem'
  obtain ⟨a, here, narrow⟩ := narrows c mem
  exact (independent a here b mem').narrow narrow

theorem narrows_ended (q : Part) : Part.ended.Narrows q := fun _ mem => nomatch mem

theorem Narrows.refl (p : Part) : p.Narrows p :=
  fun a mem => ⟨a, mem, List.Subset.refl _, rfl⟩

theorem Narrows.trans (first : p.Narrows q) (later : q.Narrows r) : p.Narrows r := by
  intro a mem
  obtain ⟨b, mem, narrow⟩ := first a mem
  obtain ⟨c, mem, narrow'⟩ := later b mem
  exact ⟨c, mem, List.Subset.trans narrow.reads narrow'.reads,
    narrow.writes.trans narrow'.writes⟩

theorem Narrows.replace {before after : List Part} (narrows : p.Narrows q) :
    ∀ a ∈ accessesAll (before ++ p :: after), ∃ b ∈ accessesAll (before ++ q :: after),
      a.Narrows b := by
  intro a mem
  obtain ⟨part, found, here⟩ := mem_accessesAll.1 mem
  rcases List.mem_append.1 found with left | right
  · exact ⟨a, mem_accessesAll.2 ⟨part, List.mem_append_left _ left, here⟩,
      List.Subset.refl _, rfl⟩
  · rcases List.mem_cons.1 right with rfl | right
    · obtain ⟨b, there, narrow⟩ := narrows a here
      exact ⟨b, mem_accessesAll.2 ⟨q, List.mem_append_right _ List.mem_cons_self, there⟩, narrow⟩
    · exact ⟨a, mem_accessesAll.2
        ⟨part, List.mem_append_right _ (List.mem_cons_of_mem _ right), here⟩,
        List.Subset.refl _, rfl⟩

theorem pairwise_replace {before after : List Part}
    (apart : (before ++ q :: after).Pairwise Independent) (narrows : p.Narrows q) :
    (before ++ p :: after).Pairwise Independent := by
  rw [List.pairwise_append, List.pairwise_cons] at apart ⊢
  obtain ⟨left, ⟨later, right⟩, across⟩ := apart
  refine ⟨left, ⟨fun b mem => (later b mem).narrow narrows, right⟩, fun a mem b mem' => ?_⟩
  rcases List.mem_cons.1 mem' with rfl | mem'
  · exact ((across a mem q List.mem_cons_self).symm.narrow narrows).symm
  · exact across a mem b (List.mem_cons_of_mem _ mem')

open FlowTree.Action (performAll)

-- The branch at hand can act before the others, since it is independent of those before it.
theorem performAll_block {outputs : String → List String → String} {before after : List Part}
    {branch : Part} (apart : (before ++ branch :: after).Pairwise Independent)
    (failures : List Failure) (place : Position) (l : Ledger) :
    performAll outputs l ((block (before ++ branch :: after) failures).actions place) =
      performAll outputs (performAll outputs l (branch.actions (place ++ [before.length])))
        (actionsFrom before place 0 ++ actionsFrom after place (before.length + 1)) := by
  have across := (List.pairwise_append.1 apart).2.2
  have independent : ∀ a ∈ actionsFrom before place 0,
      ∀ b ∈ branch.actions (place ++ [before.length]), a.access.Independent b.access := by
    intro a mem b mem'
    have here := List.mem_map_of_mem (f := Action.access) mem
    have there := List.mem_map_of_mem (f := Action.access) mem'
    rw [actionsFrom_access] at here
    rw [actions_access] at there
    obtain ⟨part, found, here⟩ := mem_accessesAll.1 here
    exact across part found branch List.mem_cons_self _ here _ there
  rw [actions, actionsFrom_append, Nat.zero_add, actionsFrom]
  simp only [Action.performAll_append]
  rw [Action.performAll_comm independent]

end Part

end FlowTree

import FlowTree.Proofs.Run.Moves

/-! The invocations of a tree and their places. All that is to start stands at a place of its own, where
the tree has its invocation. -/

set_option autoImplicit false

namespace FlowTree

namespace Statement

def at? : Statement → Position → Option Statement
  | s, [] => some s
  | .sequence elements, index :: rest => elements[index]?.bind (at? · rest)
  | .parallel branches, index :: rest => branches[index]?.bind (at? · rest)
  | .invocation _, _ :: _ => none
  | .noop, _ :: _ => none

theorem at?_append (s : Statement) (a b : Position) :
    s.at? (a ++ b) = (s.at? a).bind (at? · b) := by
  induction a generalizing s with
  | nil => cases s <;> rfl
  | cons index rest ih =>
    cases s with
    | invocation | noop => rfl
    | sequence parts | parallel parts =>
      rw [List.cons_append, at?, at?, Option.bind_assoc]
      exact congrArg _ (funext ih)

theorem bind_at?_nil (found : Option Statement) : found.bind (at? · []) = found := by
  cases found with
  | none => rfl
  | some s => cases s <;> rfl

theorem at?_element {root : Statement} {place : Position} {elements : List Statement}
    (at_place : root.at? place = some (.sequence elements)) (index : Nat) :
    root.at? (place ++ [index]) = elements[index]? := by
  rw [at?_append, at_place, Option.bind_some, at?, bind_at?_nil]

theorem at?_branch {root : Statement} {place : Position} {branches : List Statement}
    (at_place : root.at? place = some (.parallel branches)) (index : Nat) :
    root.at? (place ++ [index]) = branches[index]? := by
  rw [at?_append, at_place, Option.bind_some, at?, bind_at?_nil]

def invocation? (root : Statement) (place : Position) : Option Invocation :=
  match root.at? place with
  | some (.invocation call) => some call
  | _ => none

theorem invocation?_append {root s : Statement} {place : Position} (at_place : root.at? place = some s)
    (rest : Position) : root.invocation? (place ++ rest) = s.invocation? rest := by
  rw [invocation?, at?_append, at_place]
  rfl

mutual

def invocations : Statement → List Invocation
  | .invocation call => [call]
  | .sequence elements => invocationsAll elements
  | .parallel branches => invocationsAll branches
  | .noop => []

def invocationsAll : List Statement → List Invocation
  | [] => []
  | s :: rest => invocations s ++ invocationsAll rest

end

theorem length_invocationsAll {parts : List Statement}
    (each : ∀ s ∈ parts, s.invocations.length = s.invocationCount) :
    (invocationsAll parts).length = invocationCounts parts := by
  induction parts with
  | nil => rfl
  | cons s rest ih =>
    rw [invocationsAll, List.length_append, invocationCounts, each s List.mem_cons_self,
      ih fun s mem => each s (List.mem_cons_of_mem _ mem)]

theorem length_invocations (s : Statement) : s.invocations.length = s.invocationCount := by
  induction s with
  | invocation | noop => rfl
  | sequence elements ih => exact length_invocationsAll ih
  | parallel branches ih => exact length_invocationsAll ih

theorem invocationsAll_eq (parts : List Statement) :
    invocationsAll parts = parts.flatMap invocations := by
  induction parts with
  | nil => rfl
  | cons s rest ih => rw [invocationsAll, ih, List.flatMap_cons]

theorem mem_invocationsAll {parts : List Statement} {call : Invocation} :
    call ∈ invocationsAll parts ↔ ∃ s ∈ parts, call ∈ s.invocations := by
  rw [invocationsAll_eq, List.mem_flatMap]

theorem invocationsAll_append (before after : List Statement) :
    invocationsAll (before ++ after) = invocationsAll before ++ invocationsAll after := by
  simp only [invocationsAll_eq, List.flatMap_append]

end Statement

theorem Part.mem_todoFrom {parts : List Part} {place : Position} {index : Nat} {site : Site}
    (mem : site ∈ todoFrom parts place index) :
    ∃ (i : Nat) (part : Part), parts[i]? = some part ∧ site ∈ part.todo (place ++ [index + i]) := by
  induction parts generalizing index with
  | nil => exact absurd mem (Multiset.notMem_zero site)
  | cons head rest ih =>
    rcases Multiset.mem_add.1 mem with first | later
    · exact ⟨0, head, rfl, first⟩
    · obtain ⟨i, part, found, within⟩ := ih later
      refine ⟨i + 1, part, found, ?_⟩
      rwa [Nat.add_right_comm] at within

namespace Statement

theorem mem_todoFrom {elements : List Statement} {place : Position} {site : Site}
    (parts : ∀ s ∈ elements, ∀ place, site ∈ s.part.todo place →
      ∃ rest, site.1 = place ++ rest ∧ s.invocation? rest = some site.2)
    (mem : site ∈ Part.todoFrom (Statement.parts elements) place 0) :
    ∃ (i : Nat) (s : Statement) (rest : Position), elements[i]? = some s ∧ site.1 = place ++ i :: rest ∧
      s.invocation? rest = some site.2 := by
  obtain ⟨i, part, found, within⟩ := Part.mem_todoFrom mem
  rw [parts_eq_map, List.getElem?_map] at found
  obtain ⟨s, there, rfl⟩ := Option.map_eq_some_iff.1 found
  obtain ⟨rest, eq, inside⟩ := parts s (List.mem_of_getElem? there) _ within
  rw [Nat.zero_add, List.append_assoc] at eq
  exact ⟨i, s, rest, there, eq, inside⟩

theorem invocation?_of_mem_todo {s : Statement} {place : Position} {site : Site}
    (mem : site ∈ s.part.todo place) :
    ∃ rest, site.1 = place ++ rest ∧ s.invocation? rest = some site.2 := by
  induction s generalizing place with
  | noop => exact absurd mem (Multiset.notMem_zero site)
  | invocation call =>
    obtain rfl := Multiset.mem_singleton.1 mem
    exact ⟨[], (List.append_nil place).symm, rfl⟩
  | sequence elements ih =>
    obtain ⟨i, s, rest, found, eq, inside⟩ := mem_todoFrom (fun s mem _ => ih s mem) mem
    refine ⟨i :: rest, eq, ?_⟩
    rw [invocation?, at?, found]
    exact inside
  | parallel branches ih =>
    obtain ⟨i, s, rest, found, eq, inside⟩ := mem_todoFrom (fun s mem _ => ih s mem) mem
    refine ⟨i :: rest, eq, ?_⟩
    rw [invocation?, at?, found]
    exact inside

theorem todo_part_mem_todoFrom {elements : List Statement} {place : Position} {index i : Nat}
    {s : Statement} {site : Site} (found : elements[i]? = some s)
    (mem : site ∈ s.part.todo (place ++ [index + i])) :
    site ∈ Part.todoFrom (Statement.parts elements) place index := by
  induction elements generalizing index i with
  | nil => cases found
  | cons head rest ih =>
    rw [Statement.parts, Part.todoFrom, Multiset.mem_add]
    cases i with
    | zero =>
      cases found
      exact .inl mem
    | succ i =>
      refine .inr (ih found ?_)
      rwa [Nat.add_assoc, Nat.add_comm 1 i]

theorem invocation?_index {parts : List Statement} {index : Nat} {rest : Position} {call : Invocation}
    (found : (sequence parts).invocation? (index :: rest) = some call) :
    ∃ s, parts[index]? = some s ∧ s.invocation? rest = some call := by
  rw [invocation?, at?] at found
  cases there : parts[index]? with
  | none =>
    rw [there] at found
    cases found
  | some s =>
    rw [there] at found
    exact ⟨s, rfl, found⟩

theorem mem_todo_of_invocation? {s : Statement} {rest : Position} {call : Invocation}
    (found : s.invocation? rest = some call) (place : Position) :
    (place ++ rest, call) ∈ s.part.todo place := by
  have of_parts {parts : List Statement} {index : Nat} {rest : Position}
      (ih : ∀ s ∈ parts, ∀ {rest}, s.invocation? rest = some call → ∀ place,
        (place ++ rest, call) ∈ s.part.todo place) (place : Position)
      (found : (sequence parts).invocation? (index :: rest) = some call) :
      (place ++ index :: rest, call) ∈ Part.todoFrom (Statement.parts parts) place 0 := by
    obtain ⟨s, there, inside⟩ := invocation?_index found
    have member := ih s (List.mem_of_getElem? there) inside (place ++ [index])
    rw [List.append_assoc] at member
    refine todo_part_mem_todoFrom there ?_
    rwa [Nat.zero_add]
  induction s generalizing rest place with
  | noop => cases rest <;> cases found
  | invocation here =>
    cases rest with
    | nil =>
      cases found
      rw [List.append_nil]
      exact Multiset.mem_singleton_self _
    | cons => cases found
  | sequence elements ih =>
    cases rest with
    | nil => cases found
    | cons index rest => exact of_parts (fun s mem _ => ih s mem) place found
  | parallel branches ih =>
    cases rest with
    | nil => cases found
    | cons index rest => exact of_parts (fun s mem _ => ih s mem) place found

theorem todoFrom_invocations {elements : List Statement}
    (parts : ∀ s ∈ elements, ∀ place, (s.part.todo place).map Prod.snd = ↑s.invocations)
    (place : Position) (index : Nat) :
    (Part.todoFrom (Statement.parts elements) place index).map Prod.snd =
      ↑(invocationsAll elements) := by
  induction elements generalizing index with
  | nil => rfl
  | cons s rest ih =>
    rw [Statement.parts, Part.todoFrom, Multiset.map_add, parts s List.mem_cons_self,
      ih fun s mem => parts s (List.mem_cons_of_mem _ mem)]
    rfl

theorem todo_invocations (s : Statement) (place : Position) :
    (s.part.todo place).map Prod.snd = ↑s.invocations := by
  induction s generalizing place with
  | invocation | noop => rfl
  | sequence elements ih => exact todoFrom_invocations ih place 0
  | parallel branches ih => exact todoFrom_invocations ih place 0

theorem exists_place {s : Statement} {call : Invocation} (mem : call ∈ s.invocations) :
    ∃ rest, s.invocation? rest = some call := by
  have member : call ∈ (s.part.todo []).map Prod.snd := by
    rw [s.todo_invocations []]
    exact mem
  obtain ⟨site, here, rfl⟩ := Multiset.mem_map.1 member
  obtain ⟨rest, -, found⟩ := invocation?_of_mem_todo here
  exact ⟨rest, found⟩

-- Two elements share no place, since the places of each begin with its own index.
theorem todoFrom_apart {elements : List Statement}
    (parts : ∀ s ∈ elements, ∀ place, ((s.part.todo place).map Prod.fst).Nodup)
    (place : Position) (index : Nat) :
    ((Part.todoFrom (Statement.parts elements) place index).map Prod.fst).Nodup := by
  induction elements generalizing index with
  | nil => exact Multiset.nodup_zero
  | cons s rest ih =>
    rw [Statement.parts, Part.todoFrom, Multiset.map_add, Multiset.nodup_add]
    refine ⟨parts s List.mem_cons_self _,
      ih (fun s mem => parts s (List.mem_cons_of_mem _ mem)) _, ?_⟩
    rw [Multiset.disjoint_left]
    intro taken first later
    obtain ⟨site, mem, rfl⟩ := Multiset.mem_map.1 first
    obtain ⟨other, mem', same⟩ := Multiset.mem_map.1 later
    obtain ⟨here, eq, -⟩ := invocation?_of_mem_todo mem
    obtain ⟨i, part, found, within⟩ := Part.mem_todoFrom mem'
    rw [parts_eq_map, List.getElem?_map] at found
    obtain ⟨s', -, rfl⟩ := Option.map_eq_some_iff.1 found
    obtain ⟨there, eq', -⟩ := invocation?_of_mem_todo within
    rw [eq, eq', List.append_assoc, List.append_assoc, List.append_cancel_left_eq] at same
    have indices := (List.cons.inj same).1
    omega

theorem todo_apart (s : Statement) (place : Position) :
    ((s.part.todo place).map Prod.fst).Nodup := by
  induction s generalizing place with
  | noop => exact Multiset.nodup_zero
  | invocation call => exact Multiset.nodup_singleton place
  | sequence elements ih => exact todoFrom_apart ih place 0
  | parallel branches ih => exact todoFrom_apart ih place 0

end Statement

end FlowTree

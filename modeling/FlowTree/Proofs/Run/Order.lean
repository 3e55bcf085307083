import FlowTree.Proofs.Run.Entries
import FlowTree.Proofs.Run.Sites

/-! The order of a tree. The elements of a sequence stand one before another, with all that is in them.
What is left of a statement has left the rest behind; an element comes to be the current one when all
that is before it is done. -/

set_option autoImplicit false

namespace FlowTree

namespace Statement

/-- A position stands in an earlier element of a sequence than another one. -/
inductive Before (root : Statement) : Position → Position → Prop where
  | intro {place early late : Position} {elements : List Statement} {i j : Nat}
    (at_place : root.at? place = some (.sequence elements)) (earlier : i < j) :
    Before root (place ++ i :: early) (place ++ j :: late)

variable {root : Statement} {done more : Position → Prop} {place : Position}

def Done (root : Statement) (done : Position → Prop) (place : Position) : Prop :=
  ∀ rest call, root.invocation? (place ++ rest) = some call → done (place ++ rest)

def Clear (root : Statement) (done : Position → Prop) (place : Position) : Prop :=
  ∀ earlier call, root.Before earlier place → root.invocation? earlier = some call → done earlier

def width : Statement → Nat
  | .sequence elements => elements.length
  | .parallel branches => branches.length
  | _ => 0

theorem Done.mono (all : root.Done done place) (grows : ∀ q, done q → more q) :
    root.Done more place := fun rest call found => grows _ (all rest call found)

theorem Clear.mono (clear : root.Clear done place) (grows : ∀ q, done q → more q) :
    root.Clear more place := fun q call before found => grows q (clear q call before found)

theorem Done.of_invocation {call : Invocation} (at_place : root.at? place = some (.invocation call))
    (here : done place) : root.Done done place := by
  intro rest other found
  cases rest with
  | nil => rwa [List.append_nil]
  | cons index rest =>
    rw [invocation?_append at_place] at found
    cases found

theorem Done.of_parts {s : Statement} (at_place : root.at? place = some s)
    (block : ∀ call, s ≠ .invocation call)
    (parts : ∀ i < s.width, root.Done done (place ++ [i])) : root.Done done place := by
  have inside {index : Nat} {rest : Position} {call : Invocation}
      (found : s.invocation? (index :: rest) = some call) : index < s.width := by
    cases s with
    | invocation | noop => cases found
    | sequence elements =>
      obtain ⟨s, there, -⟩ := invocation?_index found
      exact (List.getElem?_eq_some_iff.1 there).1
    | parallel branches =>
      have found : (sequence branches).invocation? (index :: rest) = some call := found
      obtain ⟨s, there, -⟩ := invocation?_index found
      exact (List.getElem?_eq_some_iff.1 there).1
  intro rest call found
  have here := found
  rw [invocation?_append at_place] at here
  cases rest with
  | nil =>
    cases s with
    | invocation call => exact absurd rfl (block call)
    | _ => cases here
  | cons index rest =>
    rw [List.append_cons] at found ⊢
    exact parts index (inside here) rest call found

/-- What is before a part of a block stands in an earlier element of the block, or before the block. -/
theorem Before.of_part {earlier : Position} {index : Nat}
    (before : root.Before earlier (place ++ [index])) :
    (∃ elements i rest, root.at? place = some (.sequence elements) ∧ i < index ∧
      earlier = place ++ i :: rest) ∨ root.Before earlier place := by
  generalize eq : place ++ [index] = here at before
  cases before with
  | intro at_above less =>
    rcases split_concat eq with ⟨rfl, rfl, rfl⟩ | ⟨rest, rfl, rfl⟩
    · exact .inl ⟨_, _, _, at_above, less, rfl⟩
    · exact .inr (.intro at_above less)

/-- The elements before the current one are done, so nothing before the current one is left. -/
theorem Clear.element {index : Nat} (clear : root.Clear done place)
    (past : ∀ i < index, root.Done done (place ++ [i])) : root.Clear done (place ++ [index]) := by
  intro earlier call before found
  rcases before.of_part with ⟨elements, i, rest, -, less, rfl⟩ | above
  · rw [List.append_cons] at found ⊢
    exact past i less rest call found
  · exact clear earlier call above found

theorem Clear.branch {branches : List Statement} (clear : root.Clear done place)
    (at_place : root.at? place = some (.parallel branches)) (index : Nat) :
    root.Clear done (place ++ [index]) := by
  intro earlier call before found
  rcases before.of_part with ⟨elements, i, rest, inOrder, -, -⟩ | above
  · cases at_place.symm.trans inOrder
  · exact clear earlier call above found

end Statement

namespace Part

/-- What is left of the statement at a position, when everything else of it is done. -/
inductive Left (root : Statement) (done : Position → Prop) : Position → Part → Prop where
  | ended {place : Position} (all : root.Done done place) : Left root done place .ended
  | unstarted {place : Position} {invocation : Invocation}
    (at_place : root.at? place = some (.invocation invocation)) :
    Left root done place (.unstarted invocation)
  | calling {place : Position} {invocation : Invocation} {call : Call}
    (at_place : root.at? place = some (.invocation invocation)) (here : call.place = place) :
    Left root done place (.calling call)
  | sequence {place : Position} {elements : List Statement} {index : Nat} {parts : List Part}
    (at_place : root.at? place = some (.sequence elements))
    (size : elements.length = index + parts.length)
    (past : ∀ i < index, root.Done done (place ++ [i]))
    (each : ∀ k part, parts[k]? = some part → Left root done (place ++ [index + k]) part) :
    Left root done place (.sequence index parts)
  | block {place : Position} {statements : List Statement} {branches : List Part}
    {failures : List Failure} (at_place : root.at? place = some (.parallel statements))
    (size : statements.length = branches.length)
    (each : ∀ k branch, branches[k]? = some branch → Left root done (place ++ [k]) branch) :
    Left root done place (.block branches failures)

namespace Left

variable {root : Statement} {done more : Position → Prop} {place : Position} {part : Part}

theorem mono (left : Left root done place part) (grows : ∀ q, done q → more q) :
    Left root more place part := by
  induction left with
  | ended all => exact .ended (all.mono grows)
  | unstarted at_place => exact .unstarted at_place
  | calling at_place here => exact .calling at_place here
  | sequence at_place size past _ ih =>
    exact .sequence at_place size (fun i lt => (past i lt).mono grows) ih
  | block at_place size _ ih => exact .block at_place size ih

theorem done_of_ended (left : Left root done place .ended) : root.Done done place := by
  cases left with
  | ended all => exact all

variable {before after : List Part} {branch new : Part} {failures later : List Failure}

theorem inside (left : Left root done place (.block (before ++ branch :: after) failures)) :
    Left root done (place ++ [before.length]) branch := by
  cases left with
  | block _ _ each => exact each _ _ (getElem?_middle before branch after)

theorem clear_branch (left : Left root done place (.block (before ++ branch :: after) failures))
    (clear : root.Clear done place) : root.Clear done (place ++ [before.length]) := by
  cases left with
  | block at_place _ _ => exact clear.branch at_place before.length

theorem replace (left : Left root done place (.block (before ++ branch :: after) failures))
    (grows : ∀ q, done q → more q) (gone : Left root more (place ++ [before.length]) new) :
    Left root more place (.block (before ++ new :: after) later) := by
  cases left with
  | block at_place size each =>
    refine .block at_place (by simpa using size) fun k b at_k => ?_
    rw [← set_middle before branch after] at at_k
    by_cases same : before.length = k
    · subst same
      rw [List.getElem?_set_self (by simp)] at at_k
      cases at_k
      exact gone
    · rw [List.getElem?_set_ne same] at at_k
      exact (each k b at_k).mono grows

variable {index : Nat} {current : Part} {rest : List Part}

theorem first (left : Left root done place (.sequence index (current :: rest))) :
    Left root done (place ++ [index]) current := by
  cases left with
  | sequence _ _ _ each => exact each 0 current rfl

theorem clear_first (left : Left root done place (.sequence index (current :: rest)))
    (clear : root.Clear done place) : root.Clear done (place ++ [index]) := by
  cases left with
  | sequence _ _ past _ => exact clear.element past

theorem wait (left : Left root done place (.sequence index (current :: rest)))
    (grows : ∀ q, done q → more q) (gone : Left root more (place ++ [index]) new) :
    Left root more place (.sequence index (new :: rest)) := by
  cases left with
  | sequence at_place size past each =>
    refine .sequence at_place size (fun i lt => (past i lt).mono grows) fun k part at_k => ?_
    cases k with
    | zero =>
      cases at_k
      exact gone
    | succ k => exact (each (k + 1) part at_k).mono grows

theorem next (left : Left root done place (.sequence index (current :: rest)))
    (grows : ∀ q, done q → more q) (gone : root.Done more (place ++ [index])) :
    Left root more place (.sequence (index + 1) rest) := by
  cases left with
  | sequence at_place size past each =>
    refine .sequence at_place ?_ (fun i lt => ?_) fun k part at_k => ?_
    · rw [size, List.length_cons, Nat.add_right_comm, Nat.add_assoc]
    · rcases Nat.lt_succ_iff_lt_or_eq.1 lt with less | rfl
      · exact (past i less).mono grows
      · exact gone
    · rw [Nat.add_right_comm]
      exact (each (k + 1) part at_k).mono grows

theorem done_of_finished (left : Left root done place (.sequence index [])) :
    root.Done done place := by
  cases left with
  | sequence at_place size past _ =>
    refine .of_parts at_place nofun fun i lt => past i ?_
    exact Nat.lt_of_lt_of_eq lt size

theorem done_of_drained {branches : List Part} (all : ∀ b ∈ branches, b = .ended)
    (left : Left root done place (.block branches failures)) : root.Done done place := by
  cases left with
  | block at_place size each =>
    refine .of_parts at_place nofun fun i lt => ?_
    have bound : i < branches.length := Nat.lt_of_lt_of_eq lt size
    have found := each i branches[i] (List.getElem?_eq_getElem bound)
    rw [all _ (List.getElem_mem bound)] at found
    exact found.done_of_ended

end Left

end Part

namespace Statement

variable {root : Statement} {place : Position}

theorem parts_left {parts : List Statement} {done : Position → Prop} {k : Nat} {part : Part}
    (ih : ∀ s ∈ parts, ∀ {place}, root.at? place = some s → Part.Left root done place s.part)
    (at_k : (Statement.parts parts)[k]? = some part)
    (child : root.at? (place ++ [k]) = parts[k]?) : Part.Left root done (place ++ [k]) part := by
  rw [parts_eq_map, List.getElem?_map] at at_k
  obtain ⟨s, found, rfl⟩ := Option.map_eq_some_iff.1 at_k
  exact ih s (List.mem_of_getElem? found) (child.trans found)

theorem part_left {s : Statement} (at_place : root.at? place = some s) (done : Position → Prop) :
    Part.Left root done place s.part := by
  induction s generalizing place with
  | noop => exact .ended (.of_parts at_place nofun nofun)
  | invocation call => exact .unstarted at_place
  | sequence elements ih =>
    refine .sequence at_place (by simp [parts_eq_map]) nofun fun k part at_k => ?_
    rw [Nat.zero_add]
    exact parts_left ih at_k (at?_element at_place k)
  | parallel branches ih =>
    refine .block at_place (by simp [parts_eq_map]) fun k branch at_k => ?_
    exact parts_left ih at_k (at?_branch at_place k)

end Statement

end FlowTree

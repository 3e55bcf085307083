import FlowTree.Proofs.Run.Accounts
import FlowTree.Proofs.Run.Order

/-! The frontier of a tree: the invocations that can be reached without passing another one. It is what
is left to do where a tree may not go on but has to be looked through. -/

set_option autoImplicit false

namespace FlowTree

namespace Statement

/-- An invocation of a tree that can be reached without passing another one: no invocation is written
in an earlier element of a sequence around it. -/
def Frontier (root : Statement) (place : Position) (call : Invocation) : Prop :=
  root.invocation? place = some call ∧
    ∀ earlier other, root.invocation? earlier = some other → ¬ root.Before earlier place

mutual

/-- The invocations that can be reached without passing another one, where a tree stands. -/
def frontier : Statement → Position → List CallId
  | .noop, _ => []
  | .invocation call, place => [(place, call.name)]
  | .sequence elements, place => sequenceFrontier elements place 0
  | .parallel branches, place => branchesFrontier branches place 0

def sequenceFrontier : List Statement → Position → Nat → List CallId
  | [], _, _ => []
  | s :: rest, place, index =>
    if s.invocationCount = 0 then sequenceFrontier rest place (index + 1)
    else frontier s (place ++ [index])

def branchesFrontier : List Statement → Position → Nat → List CallId
  | [], _, _ => []
  | s :: rest, place, index => frontier s (place ++ [index]) ++ branchesFrontier rest place (index + 1)

end

section Before

variable {parts : List Statement} {p rest : Position} {k : Nat}

/-- What stands in order in a part of a tree stands in order in the tree. -/
theorem Before.within {root s : Statement} {early late : Position} (before : s.Before early late)
    {place : Position} (at_place : root.at? place = some s) :
    root.Before (place ++ early) (place ++ late) := by
  cases before with
  | @intro inner early late elements i j at_inner earlier =>
    rw [← List.append_assoc, ← List.append_assoc]
    refine @Before.intro _ _ _ _ elements _ _ ?_ earlier
    rw [at?_append, at_place]
    exact at_inner

theorem before_sequence_iff : (sequence parts).Before p (k :: rest) ↔
    (∃ i early, p = i :: early ∧ i < k) ∨
      ∃ s early, parts[k]? = some s ∧ p = k :: early ∧ s.Before early rest := by
  constructor
  · intro before
    generalize same : k :: rest = late at before
    cases before with
    | @intro place early late elements i j at_place earlier =>
      cases place with
      | nil =>
        cases same
        exact .inl ⟨i, early, rfl, earlier⟩
      | cons index place =>
        cases same
        obtain ⟨s, found, inside⟩ := Option.bind_eq_some_iff.1 at_place
        exact .inr ⟨s, _, found, rfl, .intro inside earlier⟩
  · rintro (⟨i, early, rfl, earlier⟩ | ⟨s, early, found, rfl, before⟩)
    · exact @Before.intro _ [] early rest parts i k rfl earlier
    · exact before.within ((at?_element (rfl : (sequence parts).at? [] = _) k).trans found)

theorem before_parallel_iff : (parallel parts).Before p (k :: rest) ↔
    ∃ s early, parts[k]? = some s ∧ p = k :: early ∧ s.Before early rest := by
  constructor
  · intro before
    generalize same : k :: rest = late at before
    cases before with
    | @intro place early late elements i j at_place earlier =>
      cases place with
      | nil => cases at_place
      | cons index place =>
        cases same
        obtain ⟨s, found, inside⟩ := Option.bind_eq_some_iff.1 at_place
        exact ⟨s, _, found, rfl, .intro inside earlier⟩
  · rintro ⟨s, early, found, rfl, before⟩
    exact before.within ((at?_branch (rfl : (parallel parts).at? [] = _) k).trans found)

end Before

section Frontier

variable {parts : List Statement} {rest : Position} {call : Invocation} {k : Nat}

theorem invocationCount_ne_zero {s : Statement} (found : s.invocation? rest = some call) :
    s.invocationCount ≠ 0 := by
  rw [← card_callIds]
  exact fun none => Multiset.notMem_zero _ (Multiset.card_eq_zero.1 none ▸ mem_callIds found)

theorem exists_invocation? {s : Statement} (filled : s.invocationCount ≠ 0) :
    ∃ rest call, s.invocation? rest = some call := by
  rw [← length_invocations] at filled
  obtain ⟨call, mem⟩ := List.exists_mem_of_length_pos (Nat.pos_of_ne_zero filled)
  obtain ⟨rest, found⟩ := exists_place mem
  exact ⟨rest, call, found⟩

theorem invocation?_element {s : Statement} (at_k : parts[k]? = some s) (rest : Position) :
    (sequence parts).invocation? (k :: rest) = s.invocation? rest :=
  invocation?_append ((at?_element (rfl : (sequence parts).at? [] = _) k).trans at_k) rest

theorem invocation?_branch {s : Statement} (at_k : parts[k]? = some s) (rest : Position) :
    (parallel parts).invocation? (k :: rest) = s.invocation? rest :=
  invocation?_element at_k rest

theorem frontier_sequence_iff : (sequence parts).Frontier (k :: rest) call ↔
    ∃ s, parts[k]? = some s ∧ (∀ i < k, ∀ t, parts[i]? = some t → t.invocationCount = 0) ∧
      s.Frontier rest call := by
  constructor
  · rintro ⟨found, first⟩
    obtain ⟨s, at_k, here⟩ := invocation?_index found
    refine ⟨s, at_k, fun i less t at_i => ?_, here, fun early other there before => ?_⟩
    · by_contra filled
      obtain ⟨early, other, there⟩ := exists_invocation? filled
      exact first (i :: early) other ((invocation?_element at_i early).trans there)
        (before_sequence_iff.2 (.inl ⟨i, early, rfl, less⟩))
    · exact first (k :: early) other ((invocation?_element at_k early).trans there)
        (before_sequence_iff.2 (.inr ⟨s, early, at_k, rfl, before⟩))
  · rintro ⟨s, at_k, none, here, first⟩
    refine ⟨(invocation?_element at_k rest).trans here, fun earlier other there before => ?_⟩
    rcases before_sequence_iff.1 before with ⟨i, early, rfl, less⟩ | ⟨t, early, at_t, rfl, before⟩
    · obtain ⟨t, at_i, found⟩ := invocation?_index there
      exact invocationCount_ne_zero found (none i less t at_i)
    · obtain rfl := Option.some.inj (at_k.symm.trans at_t)
      exact first early other ((invocation?_element at_k early).symm.trans there) before

theorem frontier_parallel_iff : (parallel parts).Frontier (k :: rest) call ↔
    ∃ s, parts[k]? = some s ∧ s.Frontier rest call := by
  constructor
  · rintro ⟨found, first⟩
    have found : (sequence parts).invocation? (k :: rest) = some call := found
    obtain ⟨s, at_k, here⟩ := invocation?_index found
    refine ⟨s, at_k, here, fun early other there before => ?_⟩
    exact first (k :: early) other ((invocation?_branch at_k early).trans there)
      (before_parallel_iff.2 ⟨s, early, at_k, rfl, before⟩)
  · rintro ⟨s, at_k, here, first⟩
    refine ⟨(invocation?_branch at_k rest).trans here, fun earlier other there before => ?_⟩
    obtain ⟨t, early, at_t, rfl, before⟩ := before_parallel_iff.1 before
    obtain rfl := Option.some.inj (at_k.symm.trans at_t)
    exact first early other ((invocation?_branch at_k early).symm.trans there) before

variable {place : Position} {index : Nat} {site : CallId}

theorem branchesFrontier_of_none (each : ∀ s ∈ parts, s.invocationCount = 0 → ∀ place,
    s.frontier place = []) (none : invocationCounts parts = 0) :
    branchesFrontier parts place index = [] := by
  induction parts generalizing index with
  | nil => rfl
  | cons s rest ih =>
    obtain ⟨here, later⟩ := Nat.add_eq_zero_iff.1 none
    rw [branchesFrontier, each s List.mem_cons_self here,
      ih (fun s mem => each s (List.mem_cons_of_mem _ mem)) later]
    rfl

theorem sequenceFrontier_of_none (none : invocationCounts parts = 0) :
    sequenceFrontier parts place index = [] := by
  induction parts generalizing index with
  | nil => rfl
  | cons s rest ih =>
    obtain ⟨here, later⟩ := Nat.add_eq_zero_iff.1 none
    rw [sequenceFrontier, if_pos here]
    exact ih later

theorem frontier_of_none {s : Statement} (none : s.invocationCount = 0) (place : Position) :
    s.frontier place = [] := by
  induction s generalizing place with
  | invocation call => cases none
  | noop => rfl
  | sequence elements ih => exact sequenceFrontier_of_none none
  | parallel branches ih => exact branchesFrontier_of_none (fun s mem none => ih s mem none) none

theorem mem_sequenceFrontier : site ∈ sequenceFrontier parts place index ↔
    ∃ (k : Nat) (s : Statement), parts[k]? = some s ∧
      (∀ i < k, ∀ t, parts[i]? = some t → t.invocationCount = 0) ∧
      site ∈ s.frontier (place ++ [index + k]) := by
  induction parts generalizing index with
  | nil => simp [sequenceFrontier]
  | cons head tail ih =>
    rw [sequenceFrontier]
    split
    · next none =>
      rw [ih]
      constructor
      · rintro ⟨k, s, at_k, passed, mem⟩
        refine ⟨k + 1, s, at_k, fun i less t at_i => ?_, ?_⟩
        · cases i with
          | zero =>
            cases at_i
            exact none
          | succ i => exact passed i (Nat.lt_of_succ_lt_succ less) t at_i
        · rwa [Nat.add_right_comm] at mem
      · rintro ⟨k, s, at_k, passed, mem⟩
        cases k with
        | zero =>
          cases at_k
          rw [frontier_of_none none] at mem
          cases mem
        | succ k =>
          rw [← Nat.add_assoc, Nat.add_right_comm] at mem
          exact ⟨k, s, at_k, fun i less t at_i => passed (i + 1) (Nat.succ_lt_succ less) t at_i, mem⟩
    · next filled =>
      constructor
      · exact fun mem => ⟨0, head, rfl, nofun, mem⟩
      · rintro ⟨k, s, at_k, passed, mem⟩
        cases k with
        | zero =>
          cases at_k
          exact mem
        | succ k => exact absurd (passed 0 (Nat.succ_pos k) head rfl) filled

theorem mem_branchesFrontier : site ∈ branchesFrontier parts place index ↔
    ∃ (k : Nat) (s : Statement), parts[k]? = some s ∧ site ∈ s.frontier (place ++ [index + k]) := by
  induction parts generalizing index with
  | nil => simp [branchesFrontier]
  | cons head tail ih =>
    rw [branchesFrontier, List.mem_append, ih]
    constructor
    · rintro (mem | ⟨k, s, at_k, mem⟩)
      · exact ⟨0, head, rfl, mem⟩
      · refine ⟨k + 1, s, at_k, ?_⟩
        rwa [Nat.add_right_comm] at mem
    · rintro ⟨k, s, at_k, mem⟩
      cases k with
      | zero =>
        cases at_k
        exact .inl mem
      | succ k =>
        rw [← Nat.add_assoc, Nat.add_right_comm] at mem
        exact .inr ⟨k, s, at_k, mem⟩

/-- The frontier of a tree holds the invocations that can be reached first, and no others. -/
theorem mem_frontier {s : Statement} : site ∈ s.frontier place ↔
    ∃ rest call, site = (place ++ rest, call.name) ∧ s.Frontier rest call := by
  induction s generalizing place with
  | noop =>
    constructor
    · nofun
    · rintro ⟨rest, call, -, found, -⟩
      cases rest <;> cases found
  | invocation here =>
    constructor
    · intro mem
      obtain rfl := List.mem_singleton.1 mem
      refine ⟨[], here, by rw [List.append_nil], rfl, fun earlier other _ before => ?_⟩
      generalize nothing : ([] : Position) = late at before
      cases before with
      | intro => exact absurd nothing.symm (by simp)
    · rintro ⟨rest, call, rfl, found, -⟩
      cases rest with
      | nil =>
        cases found
        rw [List.append_nil]
        exact List.mem_singleton_self _
      | cons => cases found
  | sequence elements ih =>
    rw [frontier, mem_sequenceFrontier]
    constructor
    · rintro ⟨k, s, at_k, passed, mem⟩
      obtain ⟨rest, call, rfl, here⟩ := (ih s (List.mem_of_getElem? at_k)).1 mem
      refine ⟨k :: rest, call, ?_, frontier_sequence_iff.2 ⟨s, at_k, passed, here⟩⟩
      rw [Nat.zero_add, List.append_assoc]
      rfl
    · rintro ⟨rest, call, rfl, here⟩
      cases rest with
      | nil => cases here.1
      | cons k rest =>
        obtain ⟨s, at_k, passed, inside⟩ := frontier_sequence_iff.1 here
        refine ⟨k, s, at_k, passed, (ih s (List.mem_of_getElem? at_k)).2 ⟨rest, call, ?_, inside⟩⟩
        rw [Nat.zero_add, List.append_assoc]
        rfl
  | parallel branches ih =>
    rw [frontier, mem_branchesFrontier]
    constructor
    · rintro ⟨k, s, at_k, mem⟩
      obtain ⟨rest, call, rfl, here⟩ := (ih s (List.mem_of_getElem? at_k)).1 mem
      refine ⟨k :: rest, call, ?_, frontier_parallel_iff.2 ⟨s, at_k, here⟩⟩
      rw [Nat.zero_add, List.append_assoc]
      rfl
    · rintro ⟨rest, call, rfl, here⟩
      cases rest with
      | nil => cases here.1
      | cons k rest =>
        obtain ⟨s, at_k, inside⟩ := frontier_parallel_iff.1 here
        refine ⟨k, s, at_k, (ih s (List.mem_of_getElem? at_k)).2 ⟨rest, call, ?_, inside⟩⟩
        rw [Nat.zero_add, List.append_assoc]
        rfl

/-- Parts without an invocation are passed, and so is nothing else. -/
example : frontier (.sequence [.noop, .parallel [.invocation { name := "first" }, .sequence
    [.parallel [], .invocation { name := "second" }, .invocation { name := "third" }]],
    .invocation { name := "last" }]) [] = [([1, 0], "first"), ([1, 1, 1], "second")] := rfl

end Frontier

end Statement

end FlowTree

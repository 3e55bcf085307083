import FlowTree.Proofs.Run.Frontier

/-! The first invocations of the parts of a tree. A branch of a parallel block has the first invocations
of the branches before it ahead of it; a branch may start when all that is ahead of it has started. -/

set_option autoImplicit false

namespace FlowTree

namespace Statement

/-- The position of the first invocation of a tree, in the order in which they are written. -/
inductive First : Statement → Position → Prop where
  | invocation (call : Invocation) : First (.invocation call) []
  | element {elements : List Statement} {i : Nat} {s : Statement} {rest : Position}
    (at_i : elements[i]? = some s) (first : First s rest)
    (idle : ∀ k < i, ∀ t, elements[k]? = some t → t.invocationCount = 0) :
    First (.sequence elements) (i :: rest)
  | branch {branches : List Statement} {i : Nat} {s : Statement} {rest : Position}
    (at_i : branches[i]? = some s) (first : First s rest)
    (idle : ∀ k < i, ∀ t, branches[k]? = some t → t.invocationCount = 0) :
    First (.parallel branches) (i :: rest)

section First

variable {call : Invocation}

theorem head?_invocationsAll {parts : List Statement} (head : (invocationsAll parts).head? = some call) :
    ∃ (i : Nat) (s : Statement), parts[i]? = some s ∧ s.invocations.head? = some call ∧
      ∀ k < i, ∀ t, parts[k]? = some t → t.invocationCount = 0 := by
  induction parts with
  | nil => cases head
  | cons s rest ih =>
    rw [invocationsAll, List.head?_append] at head
    rcases here : s.invocations.head? with _ | first
    · rw [here] at head
      obtain ⟨i, t, at_i, found, idle⟩ := ih head
      refine ⟨i + 1, t, at_i, found, fun k less u at_k => ?_⟩
      cases k with
      | zero =>
        rw [← Option.some.inj at_k, ← length_invocations, List.head?_eq_none_iff.1 here]
        rfl
      | succ k => exact idle k (Nat.lt_of_succ_lt_succ less) u at_k
    · rw [here] at head
      cases head
      exact ⟨0, s, rfl, here, fun k less => absurd less (Nat.not_lt_zero k)⟩

/-- The first invocation that is written in a tree stands at the first position. -/
theorem exists_first {s : Statement} (head : s.invocations.head? = some call) :
    ∃ rest, s.First rest ∧ s.invocation? rest = some call := by
  induction s with
  | noop => cases head
  | invocation here =>
    cases head
    exact ⟨[], .invocation _, rfl⟩
  | sequence elements ih =>
    obtain ⟨i, s, at_i, found, idle⟩ := head?_invocationsAll head
    obtain ⟨rest, first, there⟩ := ih s (List.mem_of_getElem? at_i) found
    refine ⟨i :: rest, .element at_i first idle, ?_⟩
    rw [invocation?, at?, at_i]
    exact there
  | parallel branches ih =>
    obtain ⟨i, s, at_i, found, idle⟩ := head?_invocationsAll head
    obtain ⟨rest, first, there⟩ := ih s (List.mem_of_getElem? at_i) found
    refine ⟨i :: rest, .branch at_i first idle, ?_⟩
    rw [invocation?, at?, at_i]
    exact there

theorem First.filled {s : Statement} {rest : Position} (first : s.First rest) :
    s.invocationCount ≠ 0 := by
  obtain ⟨call, found⟩ : ∃ call, s.invocation? rest = some call := by
    induction first with
    | invocation call => exact ⟨call, rfl⟩
    | element at_i _ _ ih =>
      rw [invocation?, at?, at_i]
      exact ih
    | branch at_i _ _ ih =>
      rw [invocation?, at?, at_i]
      exact ih
  exact invocationCount_ne_zero found

end First

/-- A position is that of the first invocation of a branch, before another branch of the block with a
second position. -/
inductive Ahead (root : Statement) : Position → Position → Prop where
  | intro {place early late : Position} {branches : List Statement} {i j : Nat} {s : Statement}
    (at_place : root.at? place = some (.parallel branches)) (earlier : i < j)
    (at_i : branches[i]? = some s) (first : s.First early) :
    Ahead root (place ++ i :: early) (place ++ j :: late)

/-- What is ahead of a part of a block stands in an earlier branch of the block, or is ahead of it. -/
theorem Ahead.of_part {root : Statement} {p place : Position} {index : Nat}
    (ahead : root.Ahead p (place ++ [index])) :
    (∃ branches i s rest, root.at? place = some (.parallel branches) ∧ i < index ∧
      branches[i]? = some s ∧ s.First rest ∧ p = place ++ i :: rest) ∨ root.Ahead p place := by
  generalize eq : place ++ [index] = here at ahead
  cases ahead with
  | intro at_above less at_i first =>
    rcases split_concat eq with ⟨rfl, rfl, rfl⟩ | ⟨rest, rfl, rfl⟩
    · exact .inl ⟨_, _, _, _, at_above, less, at_i, first, rfl⟩
    · exact .inr (.intro at_above less at_i first)

section Ready

variable {root s : Statement} {opened more : Position → Prop} {place : Position}

def Ready (root : Statement) (opened : Position → Prop) (place : Position) : Prop :=
  ∀ p, root.Ahead p place → opened p

def Begun (s : Statement) (opened : Position → Prop) (place : Position) : Prop :=
  ∀ rest, s.First rest → opened (place ++ rest)

theorem Ready.mono (ready : root.Ready opened place) (grows : ∀ q, opened q → more q) :
    root.Ready more place := fun p ahead => grows p (ready p ahead)

theorem Begun.mono (begun : s.Begun opened place) (grows : ∀ q, opened q → more q) :
    s.Begun more place := fun rest first => grows _ (begun rest first)

theorem Begun.of_none (none : s.invocationCount = 0) : s.Begun opened place :=
  fun _ first => absurd none first.filled

theorem Ready.element {elements : List Statement} (ready : root.Ready opened place)
    (at_place : root.at? place = some (.sequence elements)) (index : Nat) :
    root.Ready opened (place ++ [index]) := by
  intro p ahead
  rcases ahead.of_part with ⟨branches, i, s, rest, atOnce, -⟩ | above
  · cases at_place.symm.trans atOnce
  · exact ready p above

theorem Ready.branch {branches : List Statement} (ready : root.Ready opened place)
    (at_place : root.at? place = some (.parallel branches)) {index : Nat}
    (begun : ∀ i < index, ∀ s, branches[i]? = some s → s.Begun opened (place ++ [i])) :
    root.Ready opened (place ++ [index]) := by
  intro p ahead
  rcases ahead.of_part with ⟨branches', i, s, rest, atOnce, less, at_i, first, rfl⟩ | above
  · cases at_place.symm.trans atOnce
    rw [List.append_cons]
    exact begun i less s at_i rest first
  · exact ready p above

end Ready

-- Two invocations of a tree part ways in a block, and the first one stands in the earlier part: it is
-- before the other in a sequence, or ahead of it in a parallel block.
theorem First.leads {root s : Statement} {place first late : Position} {call : Invocation}
    (isFirst : s.First first) (at_place : root.at? place = some s)
    (found : s.invocation? late = some call) :
    late = first ∨ root.Before (place ++ first) (place ++ late) ∨
      root.Ahead (place ++ first) (place ++ late) := by
  have reached {parts : List Statement} {k i : Nat} {rest : Position} {t : Statement}
      (idle : ∀ k < i, ∀ t, parts[k]? = some t → t.invocationCount = 0)
      (at_k : parts[k]? = some t) (inside : t.invocation? rest = some call) : i ≤ k :=
    Nat.le_of_not_lt fun less => invocationCount_ne_zero inside (idle k less t at_k)
  induction isFirst generalizing place late with
  | invocation here =>
    cases late with
    | nil => exact .inl rfl
    | cons => cases found
  | @element elements i s rest at_i first idle ih =>
    cases late with
    | nil => cases found
    | cons k late =>
      obtain ⟨t, at_k, inside⟩ := invocation?_index found
      rcases Nat.eq_or_lt_of_le (reached idle at_k inside) with rfl | less
      · obtain rfl := Option.some.inj (at_i.symm.trans at_k)
        rw [List.append_cons place i rest, List.append_cons place i late]
        rcases ih ((at?_element at_place i).trans at_i) inside with rfl | before | ahead
        · exact .inl rfl
        · exact .inr (.inl before)
        · exact .inr (.inr ahead)
      · exact .inr (.inl (.intro at_place less))
  | @branch branches i s rest at_i first idle ih =>
    cases late with
    | nil => cases found
    | cons k late =>
      have found : (sequence branches).invocation? (k :: late) = some call := found
      obtain ⟨t, at_k, inside⟩ := invocation?_index found
      rcases Nat.eq_or_lt_of_le (reached idle at_k inside) with rfl | less
      · obtain rfl := Option.some.inj (at_i.symm.trans at_k)
        rw [List.append_cons place i rest, List.append_cons place i late]
        rcases ih ((at?_branch at_place i).trans at_i) inside with rfl | before | ahead
        · exact .inl rfl
        · exact .inr (.inl before)
        · exact .inr (.inr ahead)
      · exact .inr (.inr (.intro at_place less at_i first))

end Statement

end FlowTree

import Mathlib.Data.List.Basic

/-! Histories: the operations that a system has been through, the state they have led to and the replies
they were given. -/

set_option autoImplicit false

namespace FlowTree

theorem split_concat {α : Type} {values before after : List α} {last a : α}
    (split : values ++ [last] = before ++ a :: after) :
    (before = values ∧ a = last ∧ after = []) ∨
      ∃ rest, after = rest ++ [last] ∧ values = before ++ a :: rest := by
  rcases after.eq_nil_or_concat with rfl | ⟨rest, final, rfl⟩
  · obtain ⟨rfl, same⟩ := List.append_inj' split rfl
    obtain ⟨rfl, -⟩ := List.cons.inj same
    exact .inl ⟨rfl, rfl, rfl⟩
  · rw [List.concat_eq_append, ← List.cons_append, ← List.append_assoc] at split
    obtain ⟨eq, same⟩ := List.append_inj' split rfl
    obtain ⟨rfl, -⟩ := List.cons.inj same
    exact .inr ⟨rest, List.concat_eq_append, eq⟩

namespace History

variable {State Operation Reply : Type} (step : State → Operation → State × Reply)

def after (state : State) (operations : List Operation) : State :=
  operations.foldl (fun state operation => (step state operation).1) state

def replies (state : State) : List Operation → List Reply
  | [] => []
  | operation :: rest => (step state operation).2 :: replies (step state operation).1 rest

theorem after_concat (state : State) (operations : List Operation) (operation : Operation) :
    after step state (operations ++ [operation]) = (step (after step state operations) operation).1 :=
  List.foldl_concat _ _ _ _

theorem replies_append (state : State) (before rest : List Operation) :
    replies step state (before ++ rest) =
      replies step state before ++ replies step (after step state before) rest := by
  induction before generalizing state with
  | nil => rfl
  | cons first before ih => exact congrArg _ (ih _)

theorem length_replies (state : State) (operations : List Operation) :
    (replies step state operations).length = operations.length := by
  induction operations generalizing state with
  | nil => rfl
  | cons first rest ih => exact congrArg Nat.succ (ih _)

/-- Every operation is replied to in the state that the ones before it have led to. -/
theorem replies_split (state : State) (before : List Operation) (operation : Operation)
    (rest : List Operation) :
    (replies step state (before ++ operation :: rest))[before.length]? =
      some (step (after step state before) operation).2 := by
  rw [replies_append, List.getElem?_append_right (Nat.le_of_eq (length_replies step state before)),
    length_replies, Nat.sub_self]
  rfl

end History

end FlowTree

import Mathlib.Data.List.Forall2

/-! How a computation came about that may fail and does not. -/

set_option autoImplicit false

namespace FlowTree

variable {ε ε' α β : Type} {x : Except ε α}

theorem bind_eq_ok {f : α → Except ε β} {b : β} :
    (x >>= f) = .ok b ↔ ∃ a, x = .ok a ∧ f a = .ok b := by
  cases x <;> simp [bind, Except.bind]

theorem map_eq_ok {f : α → β} {b : β} : x.map f = .ok b ↔ ∃ a, x = .ok a ∧ f a = b := by
  cases x <;> simp [Except.map]

theorem mapError_eq_ok {f : ε → ε'} {a : α} : x.mapError f = .ok a ↔ x = .ok a := by
  constructor <;> intro done <;> cases x <;> cases done <;> rfl

theorem pure_eq_ok {a b : α} : (pure a : Except ε α) = .ok b ↔ a = b := by
  simp [pure, Except.pure]

theorem toOption_eq_some {a : α} : x.toOption = some a ↔ x = .ok a := by
  cases x <;> simp [Except.toOption]

theorem toOption_map (x : Except ε α) (f : α → β) : (x.map f).toOption = x.toOption.map f := by
  cases x <;> rfl

theorem toOption_bind (x : Except ε α) (f : α → Except ε β) :
    (x >>= f).toOption = x.toOption >>= fun a => (f a).toOption := by
  cases x <;> rfl

theorem toOption_mapM {γ : Type} {r : α → β → Prop} {read : α → Except ε γ} {read' : β → Option γ}
    {as : List α} {bs : List β} (each : List.Forall₂ r as bs)
    (agree : ∀ a b, r a b → (read a).toOption = read' b) : (as.mapM read).toOption = bs.mapM read' := by
  induction each with
  | nil => rfl
  | cons head _ ih =>
    rw [List.mapM_cons, List.mapM_cons, toOption_bind, agree _ _ head]
    congr 1
    funext c
    rw [toOption_bind, ih]
    rfl

theorem mapM_eq_ok {f : α → Except ε β} {as : List α} {bs : List β} :
    as.mapM f = .ok bs ↔ List.Forall₂ (fun a b => f a = .ok b) as bs := by
  induction as generalizing bs with
  | nil =>
    rw [List.mapM_nil, pure_eq_ok, List.forall₂_nil_left_iff]
    exact eq_comm
  | cons a as ih =>
    simp only [List.mapM_cons, bind_eq_ok, pure_eq_ok, ih, List.forall₂_cons_left_iff]
    constructor
    · rintro ⟨b, first, rest, others, rfl⟩
      exact ⟨b, rest, first, others, rfl⟩
    · rintro ⟨b, rest, first, others, rfl⟩
      exact ⟨b, first, rest, others, rfl⟩

theorem forall₂_of_mem {r s : α → β → Prop} {as : List α} {bs : List β} (each : List.Forall₂ r as bs)
    (gives : ∀ b ∈ bs, ∀ a, r a b → s a b) : List.Forall₂ s as bs := by
  induction each with
  | nil => exact .nil
  | cons head _ ih =>
    obtain ⟨first, rest⟩ := List.forall_mem_cons.1 gives
    exact .cons (first _ head) (ih rest)

theorem exists_of_forall₂ {r : α → β → Prop} {as : List α} {bs : List β} (each : List.Forall₂ r as bs)
    {b : β} (mem : b ∈ bs) : ∃ a ∈ as, r a b := by
  induction each with
  | nil => cases mem
  | cons first _ ih =>
    rcases List.mem_cons.1 mem with rfl | mem
    · exact ⟨_, List.mem_cons_self, first⟩
    · obtain ⟨a, here, related⟩ := ih mem
      exact ⟨a, List.mem_cons_of_mem _ here, related⟩

end FlowTree

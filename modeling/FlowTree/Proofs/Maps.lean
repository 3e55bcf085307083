import FlowTree.NameMap
import Mathlib.Data.Set.Card
import Mathlib.Data.String.Basic

/-! Maps after a list of insertions: what they show under the names that the list mentions, and under
others. -/

set_option autoImplicit false

namespace FlowTree

namespace NameMap

variable {α : Type} {name : String} {value : α} {map : NameMap α}

theorem lookup_eq_none {entries : List (String × α)} :
    entries.lookup name = none ↔ name ∉ entries.map Prod.fst := by
  rw [List.lookup_eq_none_iff]
  constructor
  · intro apart mem
    obtain ⟨entry, here, rfl⟩ := List.mem_map.1 mem
    simpa using apart entry here
  · intro unmentioned entry mem
    have other : name ≠ entry.1 := fun same =>
      unmentioned (List.mem_map.2 ⟨entry, mem, same.symm⟩)
    simpa using other

theorem insertAll_concat (map : NameMap α) (entries : List (String × α)) (entry : String × α) :
    map.insertAll (entries ++ [entry]) = (map.insertAll entries).insert entry.1 entry.2 :=
  List.foldl_concat _ _ _ _

def last? (entries : List (String × α)) (name : String) : Option α :=
  entries.reverse.lookup name

theorem last?_concat (entries : List (String × α)) (entry : String × α) (name : String) :
    last? (entries ++ [entry]) name = if name = entry.1 then some entry.2 else last? entries name := by
  rw [last?, List.reverse_append, List.reverse_singleton, List.singleton_append]
  by_cases same : name = entry.1
  · rw [if_pos same, same, lookup_cons_self]
  · rw [if_neg same, lookup_cons_ne same, last?]

/-- The last entry of a name counts, and the map itself where there is none. -/
theorem get?_insertAll (map : NameMap α) (entries : List (String × α)) (name : String) :
    (map.insertAll entries).get? name = (last? entries name).or (map.get? name) := by
  induction entries using List.reverseRecOn with
  | nil => rfl
  | append_singleton entries entry ih =>
    rw [insertAll_concat, get?_insert, last?_concat, ih]
    split <;> rfl

theorem last?_eq_none {entries : List (String × α)} :
    last? entries name = none ↔ name ∉ entries.map Prod.fst := by
  rw [last?, lookup_eq_none, List.map_reverse, List.mem_reverse]

theorem isSome_last? {entries : List (String × α)} :
    (last? entries name).isSome ↔ name ∈ entries.map Prod.fst := by
  rw [Option.isSome_iff_ne_none, Ne, last?_eq_none, not_not]

/-- What is laid over a map under some name hides what the map has there. -/
theorem get?_insertAll_of_mem {entries : List (String × α)} (mem : name ∈ entries.map Prod.fst) :
    ∃ value, ∀ map : NameMap α, (map.insertAll entries).get? name = some value := by
  cases last : last? entries name with
  | none => exact absurd mem (last?_eq_none.1 last)
  | some value => exact ⟨value, fun map => by rw [get?_insertAll, last, Option.some_or]⟩

theorem get?_insertAll_of_notMem {entries : List (String × α)} (map : NameMap α)
    (unmentioned : name ∉ entries.map Prod.fst) : (map.insertAll entries).get? name = map.get? name := by
  rw [get?_insertAll, last?_eq_none.2 unmentioned, Option.none_or]

theorem get?_of_mem (mem : (name, value) ∈ map.toList) : map.get? name = some value := by
  obtain ⟨before, after, split⟩ := List.append_of_mem mem
  have ascending := map.ascending
  refine List.lookup_eq_some_iff.2 ⟨before, after, split, fun entry earlier => ?_⟩
  rw [show map.entries = before ++ (name, value) :: after from split] at ascending
  have below := (List.pairwise_append.1 ascending).2.2 entry earlier (name, value) List.mem_cons_self
  simpa using (Std.ne_of_lt below).symm

theorem nodup_names (map : NameMap α) : (map.toList.map Prod.fst).Nodup :=
  List.pairwise_map.2 (map.ascending.imp fun below => Std.ne_of_lt below)

theorem isSome_get? : (map.get? name).isSome ↔ name ∈ map.toList.map Prod.fst := by
  rw [Option.isSome_iff_ne_none, get?, Ne, lookup_eq_none, not_not]
  rfl

theorem size_eq_zero : map.size = 0 ↔ ∀ name, ¬ (map.get? name).isSome := by
  simp only [isSome_get?]
  rw [← List.eq_nil_iff_forall_not_mem, List.map_eq_nil_iff]
  exact List.length_eq_zero_iff

/-- The size of a map is the number of names under which it shows something. -/
theorem size_eq_ncard (map : NameMap α) : map.size = {name | (map.get? name).isSome}.ncard := by
  have names : {name | (map.get? name).isSome} = ((map.toList.map Prod.fst).toFinset : Set String) := by
    ext name
    simp [← isSome_get?]
  rw [names, Set.ncard_coe_finset, List.toFinset_card_of_nodup map.nodup_names, List.length_map]
  rfl

theorem ofList_of_perm {entries : List (String × α)} (order : entries.Perm map.toList) :
    ofList entries = map := by
  have distinct : (entries.map Prod.fst).Nodup := by
    rw [(order.map Prod.fst).nodup_iff]
    exact map.nodup_names
  apply ext_get
  intro name
  by_cases mentioned : name ∈ entries.map Prod.fst
  · obtain ⟨⟨key, value⟩, mem, rfl⟩ := List.mem_map.1 mentioned
    rw [get?_of_mem (order.mem_iff.1 mem)]
    -- No later entry has the same name.
    obtain ⟨before, after, rfl⟩ := List.append_of_mem mem
    have last : key ∉ after.map Prod.fst := by
      rw [List.map_append, List.map_cons] at distinct
      exact (List.nodup_cons.1 (List.nodup_append.1 distinct).2.1).1
    have split : ofList (before ++ (key, value) :: after) =
        ((empty.insertAll before).insert key value).insertAll after := by
      rw [ofList, insertAll, List.foldl_append]
      rfl
    rw [split, get?_insertAll_of_notMem _ last, get?_insert, if_pos rfl]
  · rw [ofList, get?_insertAll_of_notMem _ mentioned, get?_empty]
    exact (lookup_eq_none.2 fun mem => mentioned ((order.map Prod.fst).mem_iff.2 mem)).symm

theorem get?_ofList (entries : List (String × α)) (name : String) :
    (ofList entries).get? name = last? entries name := by
  rw [ofList, get?_insertAll, get?_empty, Option.or_none]

/-- What a map shows is what the upper one shows, or else the lower one. -/
theorem get?_laidOver (upper lower : NameMap α) (name : String) :
    (upper.laidOver lower).get? name = (upper.get? name).or (lower.get? name) := by
  rw [laidOver, get?_insertAll, ← get?_ofList]
  exact congrArg (fun map : NameMap α => (map.get? name).or _) (ofList_of_perm (.refl _))

theorem mem_toList : (name, value) ∈ map.toList ↔ map.get? name = some value := by
  refine ⟨get?_of_mem, fun found => ?_⟩
  obtain ⟨before, after, split, -⟩ := List.lookup_eq_some_iff.1 found
  rw [toList, split]
  exact List.mem_append_right _ List.mem_cons_self

end NameMap

end FlowTree

/-! Maps from names, in the byte order of the names.

The entries are kept sorted without repetition, so that two maps with the same content are equal
(`NameMap.ext_get`), and `insert` is known by what `get?` sees of it (`NameMap.get?_insert`). -/

set_option autoImplicit false

namespace FlowTree

def NamesAscend {α : Type} (entries : List (String × α)) : Prop :=
  entries.Pairwise fun a b => a.1 < b.1

structure NameMap (α : Type) where
  entries : List (String × α)
  ascending : NamesAscend entries
  deriving DecidableEq

namespace NameMap

variable {α : Type}

def empty : NameMap α := ⟨[], .nil⟩

instance : Inhabited (NameMap α) := ⟨empty⟩

/-- Places an entry among sorted ones, in the place of an entry of that name if there is one. -/
def place (name : String) (value : α) : List (String × α) → List (String × α)
  | [] => [(name, value)]
  | entry :: rest =>
    if name < entry.1 then (name, value) :: entry :: rest
    else if name = entry.1 then (name, value) :: rest
    else entry :: place name value rest

theorem mem_place {name : String} {value : α} {entries : List (String × α)} {entry : String × α}
    (h : entry ∈ place name value entries) : entry = (name, value) ∨ entry ∈ entries := by
  induction entries with
  | nil => simpa [place] using h
  | cons head rest ih =>
    simp only [place] at h
    split at h
    · simpa using h
    · split at h
      · rcases List.mem_cons.1 h with h | h
        · exact .inl h
        · exact .inr (List.mem_cons_of_mem _ h)
      · rcases List.mem_cons.1 h with h | h
        · exact .inr (h ▸ List.mem_cons_self)
        · exact (ih h).imp id (List.mem_cons_of_mem _)

theorem place_ascends {entries : List (String × α)} (h : NamesAscend entries)
    (name : String) (value : α) : NamesAscend (place name value entries) := by
  induction entries with
  | nil => exact List.pairwise_singleton _ _
  | cons head rest ih =>
    have ⟨below, tail⟩ := List.pairwise_cons.1 h
    simp only [place]
    split
    · next before =>
      refine List.pairwise_cons.2 ⟨fun entry mem => ?_, h⟩
      rcases List.mem_cons.1 mem with rfl | mem
      · exact before
      · exact String.lt_trans before (below entry mem)
    · split
      · next same => exact List.pairwise_cons.2 ⟨fun entry mem => same ▸ below entry mem, tail⟩
      · next notBefore other =>
        refine List.pairwise_cons.2 ⟨fun entry mem => ?_, ih tail⟩
        rcases mem_place mem with rfl | mem
        · exact Std.lt_of_le_of_ne (String.not_lt.1 notBefore) (Ne.symm other)
        · exact below entry mem

def insert (map : NameMap α) (name : String) (value : α) : NameMap α :=
  ⟨place name value map.entries, place_ascends map.ascending name value⟩

def get? (map : NameMap α) (name : String) : Option α :=
  map.entries.lookup name

def insertAll (map : NameMap α) (entries : List (String × α)) : NameMap α :=
  entries.foldl (fun map entry => map.insert entry.1 entry.2) map

def ofList (entries : List (String × α)) : NameMap α :=
  empty.insertAll entries

def toList (map : NameMap α) : List (String × α) := map.entries

def size (map : NameMap α) : Nat := map.entries.length

def laidOver (upper lower : NameMap α) : NameMap α :=
  lower.insertAll upper.entries

theorem lookup_cons_ne {name key : String} {value : α} {entries : List (String × α)}
    (apart : name ≠ key) : ((key, value) :: entries).lookup name = entries.lookup name := by
  rw [List.lookup_cons, beq_eq_false_iff_ne.2 apart]

theorem lookup_place (name : String) (value : α) (other : String) (entries : List (String × α)) :
    (place name value entries).lookup other =
      if other = name then some value else entries.lookup other := by
  induction entries with
  | nil =>
    by_cases same : other = name
    · simp [place, same]
    · simp [place, lookup_cons_ne same, same]
  | cons head rest ih =>
    obtain ⟨key, held⟩ := head
    simp only [place]
    split
    · by_cases same : other = name
      · simp [same]
      · simp [lookup_cons_ne same, same]
    · split
      · next eq =>
        subst eq
        by_cases same : other = name
        · simp [same]
        · simp [lookup_cons_ne same, same]
      · next apart =>
        by_cases held : other = key
        · subst held
          simp [Ne.symm apart]
        · simp [lookup_cons_ne held, ih]

theorem get?_insert (map : NameMap α) (name : String) (value : α) (other : String) :
    (map.insert name value).get? other = if other = name then some value else map.get? other :=
  lookup_place name value other map.entries

@[simp] theorem get?_empty (name : String) : (empty : NameMap α).get? name = none := rfl

theorem lookup_of_below {name : String} {entries : List (String × α)}
    (h : ∀ entry ∈ entries, name < entry.1) : entries.lookup name = none := by
  induction entries with
  | nil => rfl
  | cons head rest ih =>
    have first := h head List.mem_cons_self
    have apart : (name == head.1) = false :=
      beq_eq_false_iff_ne.2 fun same => String.lt_irrefl _ (same ▸ first)
    rw [List.lookup_cons, apart]
    exact ih fun entry mem => h entry (List.mem_cons_of_mem _ mem)

theorem lookup_cons_self (entry : String × α) (entries : List (String × α)) :
    (entry :: entries).lookup entry.1 = some entry.2 := by
  rw [List.lookup_cons, beq_self_eq_true]

theorem entries_ext {left right : List (String × α)} (hl : NamesAscend left)
    (hr : NamesAscend right) (same : ∀ name, left.lookup name = right.lookup name) :
    left = right := by
  induction left generalizing right with
  | nil =>
    cases right with
    | nil => rfl
    | cons head rest => simpa [lookup_cons_self] using same head.1
  | cons a rest ih =>
    obtain ⟨belowA, tailA⟩ := List.pairwise_cons.1 hl
    cases right with
    | nil => simpa [lookup_cons_self] using same a.1
    | cons b other =>
      obtain ⟨belowB, tailB⟩ := List.pairwise_cons.1 hr
      have names : a.1 = b.1 := by
        rcases Std.lt_trichotomy a.1 b.1 with lt | eq | gt
        · have missing := @lookup_of_below α a.1 (b :: other) fun entry mem => by
            rcases List.mem_cons.1 mem with rfl | mem
            · exact lt
            · exact String.lt_trans lt (belowB entry mem)
          have found := same a.1
          rw [missing, lookup_cons_self] at found
          simp at found
        · exact eq
        · have missing := @lookup_of_below α b.1 (a :: rest) fun entry mem => by
            rcases List.mem_cons.1 mem with rfl | mem
            · exact gt
            · exact String.lt_trans gt (belowA entry mem)
          have found := same b.1
          rw [missing, lookup_cons_self] at found
          simp at found
      have values : a.2 = b.2 := by
        have found := same a.1
        rw [lookup_cons_self, names, lookup_cons_self] at found
        exact Option.some.inj found
      have head : a = b := Prod.ext names values
      subst head
      congr 1
      refine ih tailA tailB fun name => ?_
      by_cases eq : name = a.1
      · subst eq
        rw [lookup_of_below belowA, lookup_of_below belowB]
      · simpa only [lookup_cons_ne eq] using same name

theorem ext_get {left right : NameMap α} (same : ∀ name, left.get? name = right.get? name) :
    left = right := by
  have entries := entries_ext left.ascending right.ascending same
  cases left
  cases right
  simpa using entries

end NameMap

end FlowTree

import FlowTree.Bindings
import FlowTree.Proofs.Histories
import FlowTree.Proofs.Maps

/-! Handles and the stores behind them.

What a handle shows is told from the history of the operations alone: from which making of a store it
descends by sharing, what that store was seeded with, and what has been inserted through the handles that
descend from the same making. -/

set_option autoImplicit false

namespace FlowTree.Bindings

namespace Operation

def through? : Operation → Option Nat
  | .get handle _ | .insert handle _ _ | .resolve handle _ | .snapshot handle | .size handle
  | .isEmpty handle | .share handle => some handle
  | .makeEmpty | .makeFromSource | .setSource _ _ | .showSource => none

def makesStore : Operation → Bool
  | .makeEmpty | .makeFromSource => true
  | _ => false

def makesHandle : Operation → Bool
  | .share _ | .makeEmpty | .makeFromSource => true
  | _ => false

def change? : Operation → Option (String × String)
  | .setSource name value => some (name, value)
  | _ => none

end Operation

variable {source : Store} {ops : List Operation} {op : Operation} {handle place : Nat} {seed : Store}

def after (source : Store) (ops : List Operation) : Bindings := History.after step { source } ops

theorem run_eq_replies (b : Bindings) (ops : List Operation) : run b ops = History.replies step b ops := by
  induction ops generalizing b with
  | nil => rfl
  | cons op rest ih => exact congrArg _ (ih _)

def handlesMade (ops : List Operation) : Nat := ops.countP Operation.makesHandle

def storesMade (ops : List Operation) : Nat := ops.countP Operation.makesStore

def Valid (ops : List Operation) : Prop :=
  ∀ before op rest, ops = before ++ op :: rest → ∀ handle ∈ op.through?, handle < handlesMade before

/-- A handle descends from the making of a store when it was given there, or is shared from a handle that
does. Handles are numbered in the order they are made, and so are stores. -/
inductive Descends : List Operation → Nat → Nat → Prop where
  | made {ops before rest : List Operation} {op : Operation} (split : ops = before ++ op :: rest)
      (makes : op.makesStore) : Descends ops (handlesMade before) (storesMade before)
  | shared {ops before rest : List Operation} {handle place : Nat}
      (split : ops = before ++ .share handle :: rest) (descends : Descends before handle place) :
      Descends ops (handlesMade before) place

def Related (ops : List Operation) (left right : Nat) : Prop :=
  ∃ place, Descends ops left place ∧ Descends ops right place

def sourceAfter (source : Store) (ops : List Operation) : Store :=
  source.insertAll (ops.filterMap Operation.change?)

def Operation.seed? (source : Store) (before : List Operation) : Operation → Option Store
  | .makeEmpty => some NameMap.empty
  | .makeFromSource => some (sourceAfter source before)
  | _ => none

def Seeded (source : Store) (ops : List Operation) (place : Nat) (seed : Store) : Prop :=
  ∃ before op rest, ops = before ++ op :: rest ∧ storesMade before = place ∧
    op.seed? source before = some seed

open scoped Classical in
noncomputable def insertion? (ops : List Operation) (place : Nat) : Operation → Option (String × String)
  | .insert handle name value => if Descends ops handle place then some (name, value) else none
  | _ => none

noncomputable def inserted (ops : List Operation) (place : Nat) : List (String × String) :=
  ops.filterMap (insertion? ops place)

theorem handlesMade_concat (ops : List Operation) (op : Operation) :
    handlesMade (ops ++ [op]) = handlesMade ops + if op.makesHandle then 1 else 0 := by
  rw [handlesMade, List.countP_append, List.countP_singleton, handlesMade]

theorem storesMade_concat (ops : List Operation) (op : Operation) :
    storesMade (ops ++ [op]) = storesMade ops + if op.makesStore then 1 else 0 := by
  rw [storesMade, List.countP_append, List.countP_singleton, storesMade]

theorem handlesMade_append_le (before rest : List Operation) :
    handlesMade before ≤ handlesMade (before ++ rest) := by
  rw [handlesMade, handlesMade, List.countP_append]
  exact Nat.le_add_right _ _

theorem Valid.nil : Valid [] := by
  intro before op rest split
  simp at split

theorem valid_concat :
    Valid (ops ++ [op]) ↔ Valid ops ∧ ∀ handle ∈ op.through?, handle < handlesMade ops := by
  constructor
  · intro valid
    refine ⟨fun before earlier rest split => ?_, valid ops op [] rfl⟩
    exact valid before earlier (rest ++ [op]) (by rw [split, List.append_assoc, List.cons_append])
  · rintro ⟨valid, made⟩ before earlier rest whole
    obtain ⟨rfl, rfl, rfl⟩ | ⟨rest, rfl, split⟩ := split_concat whole
    · exact made
    · exact valid before earlier rest split

theorem Valid.concat (valid : Valid ops) (op : Operation)
    (made : ∀ handle ∈ op.through?, handle < handlesMade ops) :
    Valid (ops ++ [op]) :=
  valid_concat.2 ⟨valid, made⟩

theorem Valid.of_append {before rest : List Operation} (valid : Valid (before ++ rest)) :
    Valid before := by
  intro first op later split
  exact valid first op (later ++ rest) (by rw [split, List.append_assoc, List.cons_append])

theorem sourceAfter_concat (source : Store) (ops : List Operation) (op : Operation) :
    sourceAfter source (ops ++ [op]) = (sourceAfter source ops).insertAll op.change?.toList := by
  rw [sourceAfter, List.filterMap_append, NameMap.insertAll, List.foldl_append]
  cases h : op.change? <;> simp [List.filterMap, h, sourceAfter, NameMap.insertAll]

theorem seeded_concat :
    Seeded source (ops ++ [op]) place seed ↔
      Seeded source ops place seed ∨ storesMade ops = place ∧ op.seed? source ops = some seed := by
  constructor
  · rintro ⟨before, earlier, rest, whole, here, starts⟩
    obtain ⟨rfl, rfl, rfl⟩ | ⟨rest, rfl, split⟩ := split_concat whole
    · exact .inr ⟨here, starts⟩
    · exact .inl ⟨before, earlier, rest, split, here, starts⟩
  · rintro (⟨before, earlier, rest, rfl, here, starts⟩ | ⟨here, starts⟩)
    · exact ⟨before, earlier, rest ++ [op], by rw [List.append_assoc, List.cons_append], here, starts⟩
    · exact ⟨ops, op, [], rfl, here, starts⟩

/-- The handle that the last operation gives, and what it descends from. -/
theorem descends_concat :
    Descends (ops ++ [op]) handle place ↔ Descends ops handle place ∨
      handle = handlesMade ops ∧
        (op.makesStore ∧ place = storesMade ops ∨
          ∃ shared, op = .share shared ∧ Descends ops shared place) := by
  constructor
  · rintro (⟨whole, makes⟩ | ⟨whole, descends⟩)
    · obtain ⟨rfl, rfl, rfl⟩ | ⟨rest, rfl, split⟩ := split_concat whole
      · exact .inr ⟨rfl, .inl ⟨makes, rfl⟩⟩
      · exact .inl (.made split makes)
    · obtain ⟨rfl, rfl, rfl⟩ | ⟨rest, rfl, split⟩ := split_concat whole
      · exact .inr ⟨rfl, .inr ⟨_, rfl, descends⟩⟩
      · exact .inl (.shared split descends)
  · rintro ((⟨rfl, makes⟩ | ⟨rfl, descends⟩) | ⟨rfl, ⟨makes, rfl⟩ | ⟨shared, rfl, descends⟩⟩)
    · exact .made (by rw [List.append_assoc, List.cons_append]) makes
    · exact .shared (by rw [List.append_assoc, List.cons_append]) descends
    · exact .made rfl makes
    · exact .shared rfl descends

theorem Descends.handle_lt (descends : Descends ops handle place) : handle < handlesMade ops := by
  induction ops using List.reverseRecOn with
  | nil => cases descends <;> simp at *
  | append_singleton ops op ih =>
    rw [handlesMade_concat]
    rcases descends_concat.1 descends with earlier | ⟨rfl, ⟨makes, -⟩ | ⟨shared, rfl, -⟩⟩
    · exact Nat.lt_add_right _ (ih earlier)
    · have gives : op.makesHandle := by cases op <;> simp_all [Operation.makesStore, Operation.makesHandle]
      simp [gives]
    · simp [Operation.makesHandle]

theorem Descends.place_lt (descends : Descends ops handle place) : place < storesMade ops := by
  induction ops using List.reverseRecOn generalizing handle with
  | nil => exact absurd descends.handle_lt (Nat.not_lt_zero _)
  | append_singleton ops op ih =>
    rw [storesMade_concat]
    rcases descends_concat.1 descends with earlier | ⟨-, ⟨makes, rfl⟩ | ⟨shared, -, earlier⟩⟩
    · exact Nat.lt_add_right _ (ih earlier)
    · simp [makes]
    · exact Nat.lt_add_right _ (ih earlier)

theorem seed?_isSome : (op.seed? source ops).isSome = op.makesStore := by
  cases op <;> rfl

theorem Seeded.place_lt (seeded : Seeded source ops place seed) : place < storesMade ops := by
  obtain ⟨before, op, rest, rfl, rfl, starts⟩ := seeded
  have makes : op.makesStore := by rw [← @seed?_isSome source before, starts]; rfl
  rw [storesMade, storesMade, List.countP_append, List.countP_cons_of_pos makes]
  omega

theorem Seeded.unique {other : Store} (left : Seeded source ops place seed)
    (right : Seeded source ops place other) : seed = other := by
  induction ops using List.reverseRecOn with
  | nil => exact absurd left.place_lt (Nat.not_lt_zero _)
  | append_singleton ops op ih =>
    rcases seeded_concat.1 left with earlier | ⟨rfl, starts⟩ <;>
      rcases seeded_concat.1 right with earlier' | ⟨same, starts'⟩
    · exact ih earlier earlier'
    · exact absurd earlier.place_lt (same ▸ lt_irrefl _)
    · exact absurd earlier'.place_lt (lt_irrefl _)
    · exact Option.some.inj (starts.symm.trans starts')

theorem insertion?_unmade (ops : List Operation) (op : Operation) : insertion? ops (storesMade ops) op = none := by
  cases op with
  | insert handle name value => exact if_neg fun descends => descends.place_lt.false
  | _ => rfl

theorem inserted_unmade (ops : List Operation) : inserted ops (storesMade ops) = [] :=
  List.filterMap_eq_nil_iff.2 fun op _ => insertion?_unmade ops op

open scoped Classical in
/-- Handles that are made later have no part in the insertions so far. -/
theorem inserted_concat (valid : Valid (ops ++ [op])) (place : Nat) :
    inserted (ops ++ [op]) place = inserted ops place ++ (insertion? ops place op).toList := by
  have unmade : ∀ earlier ∈ ops ++ [op], insertion? (ops ++ [op]) place earlier = insertion? ops place earlier := by
    intro earlier mem
    obtain ⟨before, rest, split⟩ := List.append_of_mem mem
    cases earlier with
    | insert handle name value =>
      have made : handle < handlesMade ops := by
        refine (valid before _ rest split handle rfl).trans_le ?_
        obtain ⟨rfl, -, -⟩ | ⟨later, -, rfl⟩ := split_concat split
        · exact le_rfl
        · exact handlesMade_append_le _ _
      have same : Descends (ops ++ [op]) handle place ↔ Descends ops handle place := by
        rw [descends_concat]
        exact or_iff_left fun last => made.ne last.1
      exact if_congr same rfl rfl
    | _ => rfl
  rw [inserted, List.filterMap_congr unmade, List.filterMap_append]
  cases entry : insertion? ops place op <;> simp [List.filterMap, entry, inserted]

/-- The state tells the history: the handles and what they descend from, the stores and what has been
inserted in them. -/
structure Represents (source : Store) (ops : List Operation) (b : Bindings) : Prop where
  source_eq : b.source = sourceAfter source ops
  length_handles : b.handles.length = handlesMade ops
  length_stores : b.stores.length = storesMade ops
  descends_iff : ∀ handle place, Descends ops handle place ↔ b.handles[handle]? = some place
  seeded : ∀ place < storesMade ops, ∃ seed, Seeded source ops place seed
  store_eq : ∀ place seed, Seeded source ops place seed →
    b.stores[place]? = some (seed.insertAll (inserted ops place))

theorem Represents.init (source : Store) : Represents source [] { source } where
  source_eq := rfl
  length_handles := rfl
  length_stores := rfl
  descends_iff handle place := by
    constructor
    · intro descends
      exact absurd descends.handle_lt (Nat.not_lt_zero _)
    · simp
  seeded place made := absurd made (Nat.not_lt_zero _)
  store_eq place seed seeded := absurd seeded.place_lt (Nat.not_lt_zero _)

variable {b : Bindings}

theorem step_source (b : Bindings) (op : Operation) :
    (b.step op).1.source = b.source.insertAll op.change?.toList := by
  cases op with
  | insert handle name value =>
    simp only [step, Bindings.insert]
    split <;> rfl
  | _ => rfl

/-- The handle that an operation gives: the place of a new store, or that of the handle that is shared. -/
def origin? (b : Bindings) : Operation → Option Nat
  | .share handle => some (b.handles.getD handle b.stores.length)
  | .makeEmpty | .makeFromSource => some b.stores.length
  | _ => none

theorem step_handles (b : Bindings) (op : Operation) :
    (b.step op).1.handles = b.handles ++ (b.origin? op).toList := by
  cases op with
  | insert handle name value =>
    simp only [step, Bindings.insert, origin?]
    split <;> simp
  | share | makeEmpty | makeFromSource => rfl
  | _ => exact (List.append_nil _).symm

theorem origin?_isSome (b : Bindings) (op : Operation) : (b.origin? op).isSome = op.makesHandle := by
  cases op <;> rfl

theorem getElem?_insert (b : Bindings) (handle : Nat) (name value : String) (place : Nat) :
    (b.insert handle name value).stores[place]? =
      if b.handles[handle]? = some place then (b.stores[place]?).map (·.insert name value)
      else b.stores[place]? := by
  rw [Bindings.insert]
  cases behind : b.handles[handle]? with
  | none => simp
  | some at' =>
    simp only [store, behind, Option.bind_eq_bind, Option.bind_some, Option.some.injEq]
    rw [List.getElem?_set]
    split
    · next same =>
      subst same
      cases held : b.stores[at']? with
      | none => simp [List.getElem?_eq_none_iff.1 held]
      | some store => simp [(List.getElem?_eq_some_iff.1 held).1]
    · rfl

theorem step_length_stores (b : Bindings) (op : Operation) :
    (b.step op).1.stores.length = b.stores.length + if op.makesStore then 1 else 0 := by
  cases op with
  | insert handle name value =>
    simp only [step, Bindings.insert]
    split
    · exact List.length_set
    · rfl
  | makeEmpty | makeFromSource => exact List.length_append
  | _ => rfl

namespace Represents

theorem step_store (repr : Represents source ops b) (op : Operation) (earlier : place < storesMade ops) :
    (b.step op).1.stores[place]? = (b.stores[place]?).map (·.insertAll (insertion? ops place op).toList) := by
  cases op with
  | insert handle name value =>
    have reached := repr.descends_iff handle place
    simp only [step, getElem?_insert, insertion?]
    by_cases descends : Descends ops handle place
    · rw [if_pos (reached.1 descends), if_pos descends]
      rfl
    · rw [if_neg (mt reached.2 descends), if_neg descends]
      exact Option.map_id_apply.symm
  | makeEmpty | makeFromSource =>
    refine (List.getElem?_append_left ?_).trans Option.map_id_apply.symm
    exact repr.length_stores ▸ earlier
  | _ => exact Option.map_id_apply.symm

theorem step_made (repr : Represents source ops b) (starts : op.seed? source ops = some seed) :
    (b.step op).1.stores[storesMade ops]? = some seed := by
  have last (store : Store) : (b.stores ++ [store])[storesMade ops]? = some store := by
    rw [← repr.length_stores, List.getElem?_concat_length]
  cases op with
  | makeEmpty =>
    obtain rfl := Option.some.inj starts
    exact last _
  | makeFromSource =>
    obtain rfl := Option.some.inj starts
    exact repr.source_eq ▸ last _
  | _ => contradiction

theorem origin_iff (repr : Represents source ops b)
    (made : ∀ handle ∈ op.through?, handle < handlesMade ops) :
    b.origin? op = some place ↔ op.makesStore ∧ place = storesMade ops ∨
      ∃ shared, op = .share shared ∧ Descends ops shared place := by
  cases op with
  | share handle =>
    have here : handle < b.handles.length := repr.length_handles ▸ made handle rfl
    simp [origin?, Operation.makesStore, repr.descends_iff, here]
  | makeEmpty | makeFromSource => simp [origin?, Operation.makesStore, repr.length_stores, eq_comm]
  | _ => simp [origin?, Operation.makesStore]

theorem step (repr : Represents source ops b) (valid : Valid (ops ++ [op])) :
    Represents source (ops ++ [op]) (b.step op).1 where
  source_eq := by rw [step_source, repr.source_eq, sourceAfter_concat]
  length_handles := by
    rw [step_handles, List.length_append, repr.length_handles, handlesMade_concat, ← origin?_isSome b]
    cases b.origin? op <;> rfl
  length_stores := by rw [step_length_stores, repr.length_stores, storesMade_concat]
  descends_iff handle place := by
    rw [descends_concat, step_handles, ← repr.origin_iff (valid_concat.1 valid).2, repr.descends_iff,
      ← repr.length_handles, List.getElem?_append]
    split
    · next before => exact or_iff_left fun last => before.ne last.1
    · next notBefore =>
      rw [List.getElem?_eq_none_iff.2 (not_lt.1 notBefore)]
      cases b.origin? op with
      | none => simp
      | some origin =>
        simp [List.getElem?_singleton]
        omega
  seeded place made := by
    rw [storesMade_concat] at made
    by_cases earlier : place < storesMade ops
    · obtain ⟨seed, seeded⟩ := repr.seeded place earlier
      exact ⟨seed, seeded_concat.2 (.inl seeded)⟩
    · have makes : op.makesStore := by
        by_contra none
        simp [none] at made
        omega
      obtain ⟨seed, starts⟩ := Option.isSome_iff_exists.1 ((@seed?_isSome source ops op).trans makes)
      refine ⟨seed, seeded_concat.2 (.inr ⟨?_, starts⟩)⟩
      simp [makes] at made
      omega
  store_eq place seed seeded := by
    rw [inserted_concat valid, NameMap.insertAll, List.foldl_append]
    rcases seeded_concat.1 seeded with earlier | ⟨rfl, starts⟩
    · rw [repr.step_store op earlier.place_lt, repr.store_eq place seed earlier]
      rfl
    · rw [inserted_unmade, insertion?_unmade, repr.step_made starts]
      rfl

theorem run (valid : Valid ops) : Represents source ops (after source ops) := by
  induction ops using List.reverseRecOn with
  | nil => exact .init source
  | append_singleton ops op ih =>
    rw [after, History.after_concat]
    exact (ih (valid_concat.1 valid).1).step valid

variable (repr : Represents source ops b)
include repr

theorem unique_place {other : Nat} (left : Descends ops handle place) (right : Descends ops handle other) :
    place = other := by
  rw [repr.descends_iff] at left right
  exact Option.some.inj (left.symm.trans right)

theorem exists_place (made : handle < handlesMade ops) : ∃ place, Descends ops handle place := by
  have here : handle < b.handles.length := repr.length_handles ▸ made
  exact ⟨_, (repr.descends_iff handle _).2 (List.getElem?_eq_getElem here)⟩

theorem store_of_descends (descends : Descends ops handle place) (seeded : Seeded source ops place seed) :
    b.store handle = seed.insertAll (inserted ops place) := by
  rw [store, (repr.descends_iff handle place).1 descends, Option.bind_eq_bind, Option.bind_some,
    repr.store_eq place seed seeded, Option.getD_some]

end Represents

/-- What a name has behind a handle: the value that was inserted last under it through any handle of the
store, and the value in the seed where there is none. -/
def Shows (source : Store) (ops : List Operation) (handle : Nat) (name : String)
    (value : Option String) : Prop :=
  ∃ place seed, Descends ops handle place ∧ Seeded source ops place seed ∧
    value = (NameMap.last? (inserted ops place) name).or (seed.get? name)

def Occurs (source : Store) (ops : List Operation) (handle : Nat) (name : String) : Prop :=
  ∃ place seed, Descends ops handle place ∧ Seeded source ops place seed ∧
    ((seed.get? name).isSome ∨ name ∈ (inserted ops place).map Prod.fst)

def Answers (source : Store) (before : List Operation) : Operation → Reply → Prop
  | .get handle name, reply => ∃ value, Shows source before handle name value ∧ reply = .value value
  | .insert handle name value, reply => ∃ store : Store, reply = .store store ∧
      ∀ other, Shows source (before ++ [.insert handle name value]) handle other (store.get? other)
  | .resolve handle names, reply => ∃ values, reply = .values values ∧
      List.Forall₂ (fun name text => ∃ value, Shows source before handle name value ∧
        text = value.getD "") names values
  | .snapshot handle, reply => ∃ store : Store, reply = .store store ∧
      ∀ name, Shows source before handle name (store.get? name)
  | .size handle, reply => reply = .size {name | Occurs source before handle name}.ncard
  | .isEmpty handle, reply => ∃ empty, reply = .flag empty ∧
      (empty ↔ ∀ name, ¬ Occurs source before handle name)
  | .share _, reply | .makeEmpty, reply | .makeFromSource, reply => reply = .handle (handlesMade before)
  | .setSource name value, reply => reply = .store ((sourceAfter source before).insert name value)
  | .showSource, reply => reply = .store (sourceAfter source before)

namespace Represents

variable (repr : Represents source ops b)
include repr

theorem exists_origin (made : handle < handlesMade ops) :
    ∃ place seed, Descends ops handle place ∧ Seeded source ops place seed := by
  obtain ⟨place, descends⟩ := repr.exists_place made
  obtain ⟨seed, seeded⟩ := repr.seeded place descends.place_lt
  exact ⟨place, seed, descends, seeded⟩

theorem shows (made : handle < handlesMade ops) (name : String) :
    Shows source ops handle name ((b.store handle).get? name) := by
  obtain ⟨place, seed, descends, seeded⟩ := repr.exists_origin made
  refine ⟨place, seed, descends, seeded, ?_⟩
  rw [repr.store_of_descends descends seeded, NameMap.get?_insertAll]

theorem occurs_iff (made : handle < handlesMade ops) (name : String) :
    Occurs source ops handle name ↔ ((b.store handle).get? name).isSome := by
  have shown {place : Nat} {seed : Store} (descends : Descends ops handle place)
      (seeded : Seeded source ops place seed) : ((b.store handle).get? name).isSome ↔
        ((seed.get? name).isSome ∨ name ∈ (inserted ops place).map Prod.fst) := by
    rw [repr.store_of_descends descends seeded, NameMap.get?_insertAll, Option.isSome_or, Bool.or_eq_true,
      NameMap.isSome_last?, or_comm]
  constructor
  · rintro ⟨place, seed, descends, seeded, occurs⟩
    exact (shown descends seeded).2 occurs
  · intro some
    obtain ⟨place, seed, descends, seeded⟩ := repr.exists_origin made
    exact ⟨place, seed, descends, seeded, (shown descends seeded).1 some⟩

theorem size_eq (made : handle < handlesMade ops) :
    (b.store handle).size = {name | Occurs source ops handle name}.ncard := by
  simp only [repr.occurs_iff made, NameMap.size_eq_ncard]

theorem answers (valid : Valid (ops ++ [op])) : Answers source ops op (b.step op).2 := by
  have made := (valid_concat.1 valid).2
  cases op with
  | get handle name => exact ⟨_, repr.shows (made handle rfl) name, rfl⟩
  | insert handle name value =>
    refine ⟨_, rfl, fun other => (repr.step valid).shows ?_ other⟩
    rw [handlesMade_concat]
    exact Nat.lt_add_right _ (made handle rfl)
  | resolve handle names =>
    refine ⟨_, rfl, List.forall₂_map_right_iff.2 (List.forall₂_same.2 fun name _ => ?_)⟩
    exact ⟨_, repr.shows (made handle rfl) name, rfl⟩
  | snapshot handle => exact ⟨_, rfl, repr.shows (made handle rfl)⟩
  | size handle => exact congrArg Reply.size (repr.size_eq (made handle rfl))
  | isEmpty handle =>
    refine ⟨_, rfl, ?_⟩
    rw [decide_eq_true_iff, NameMap.size_eq_zero]
    simp only [repr.occurs_iff (made handle rfl)]
  | share handle => exact congrArg Reply.handle repr.length_handles
  | makeEmpty => exact congrArg Reply.handle repr.length_handles
  | makeFromSource => exact congrArg Reply.handle repr.length_handles
  | setSource name value => exact congrArg (fun map => Reply.store (map.insert name value)) repr.source_eq
  | showSource => exact congrArg Reply.store repr.source_eq

/-- What an operation changes of what a handle shows is what it inserts through a related handle. -/
theorem step_store_of_descends (valid : Valid (ops ++ [op])) (descends : Descends ops handle place) :
    (b.step op).1.store handle = (b.store handle).insertAll (insertion? ops place op).toList := by
  obtain ⟨seed, seeded⟩ := repr.seeded place descends.place_lt
  rw [(repr.step valid).store_of_descends (descends_concat.2 (.inl descends)) (seeded_concat.2 (.inl seeded)),
    repr.store_of_descends descends seeded, inserted_concat valid, NameMap.insertAll, List.foldl_append]
  rfl

theorem step_insert {name value : String} (valid : Valid (ops ++ [.insert handle name value])) {other : Nat}
    (related : Related ops handle other) :
    (b.step (.insert handle name value)).1.store other = (b.store other).insert name value := by
  obtain ⟨place, left, right⟩ := related
  rw [repr.step_store_of_descends valid right, insertion?, if_pos left]
  rfl

/-- Whatever does not insert through a related handle changes nothing that a handle shows. -/
theorem step_apart (valid : Valid (ops ++ [op])) (made : handle < handlesMade ops)
    (apart : ∀ other name value, op = .insert other name value → ¬ Related ops other handle) :
    (b.step op).1.store handle = b.store handle := by
  obtain ⟨place, descends⟩ := repr.exists_place made
  have nothing : insertion? ops place op = none := by
    cases op with
    | insert other name value => exact if_neg fun left => apart other name value rfl ⟨place, left, descends⟩
    | _ => rfl
  rw [repr.step_store_of_descends valid descends, nothing]
  rfl

end Represents

theorem Valid.of_split {before rest : List Operation} (valid : Valid ops)
    (split : ops = before ++ op :: rest) : Valid (before ++ [op]) :=
  @Valid.of_append (before ++ [op]) rest (by rwa [List.append_assoc, List.singleton_append, ← split])

/-- Handles are as good as a heap of maps: what they show, and what is replied to any operation, follows
from what was inserted through related handles. -/
theorem handles_refine_heap (source : Store) (ops : List Operation) (valid : Valid ops) :
    -- Every handle descends from one making of a store, and that store from one seed.
    (∀ handle < handlesMade ops, ∃! origin : Nat × Store,
      Descends ops handle origin.1 ∧ Seeded source ops origin.1 origin.2) ∧
    -- Replies are those of the heap, and stay what they were.
    (∀ before op rest, ops = before ++ op :: rest →
      (∃ reply, (run { source } ops)[before.length]? = some reply ∧ Answers source before op reply) ∧
      run { source } before <+: run { source } ops) ∧
    -- Related handles show the same.
    (∀ left right, Related ops left right →
      (after source ops).store left = (after source ops).store right) ∧
    -- An insertion reaches the related handles, and nothing else.
    (∀ before handle name value rest, ops = before ++ .insert handle name value :: rest →
      let b := after source before
      let b' := after source (before ++ [.insert handle name value])
      (∀ other, Related before handle other → b'.store other = (b.store other).insert name value) ∧
      (∀ other < handlesMade before, ¬ Related before handle other → b'.store other = b.store other) ∧
      b'.source = b.source) ∧
    -- A change of the source map, like any other operation, changes no store that is there.
    (∀ before op rest, ops = before ++ op :: rest →
      (∀ handle name value, op ≠ .insert handle name value) → ∀ other < handlesMade before,
        (after source (before ++ [op])).store other = (after source before).store other) := by
  have represents {before rest : List Operation} {op : Operation} (split : ops = before ++ op :: rest) :
      Represents source before (after source before) :=
    .run (valid_concat.1 (valid.of_split split)).1
  have stepped (before : List Operation) (op : Operation) :
      after source (before ++ [op]) = ((after source before).step op).1 :=
    History.after_concat ..
  refine ⟨fun handle made => ?_, fun before op rest split => ⟨?_, ?_⟩, fun left right related => ?_,
    fun before handle name value rest split => ⟨fun other related => ?_, fun other made apart => ?_, ?_⟩,
    fun before op rest split quiet other made => ?_⟩
  · have repr : Represents source ops (after source ops) := .run valid
    obtain ⟨place, seed, descends, seeded⟩ := repr.exists_origin made
    refine ⟨(place, seed), ⟨descends, seeded⟩, fun other ⟨descends', seeded'⟩ => ?_⟩
    obtain ⟨place', seed'⟩ := other
    obtain rfl : place' = place := repr.unique_place descends' descends
    rw [Seeded.unique seeded seeded']
  · refine ⟨_, ?_, (represents split).answers (valid.of_split split)⟩
    rw [split, run_eq_replies, History.replies_split]
    rfl
  · rw [split, run_eq_replies, run_eq_replies, History.replies_append]
    exact List.prefix_append _ _
  · obtain ⟨place, descends, descends'⟩ := related
    have repr : Represents source ops (after source ops) := .run valid
    obtain ⟨seed, seeded⟩ := repr.seeded place descends.place_lt
    rw [repr.store_of_descends descends seeded, repr.store_of_descends descends' seeded]
  · rw [stepped]
    exact (represents split).step_insert (valid.of_split split) related
  · rw [stepped]
    refine (represents split).step_apart (valid.of_split split) made fun through name value same => ?_
    obtain ⟨rfl, rfl, rfl⟩ := Operation.insert.inj same
    exact apart
  · rw [stepped, step_source]
    rfl
  · rw [stepped]
    exact (represents split).step_apart (valid.of_split split) made fun handle name value same =>
      absurd same (quiet handle name value)

/-- A store that is copied from the source map and shared, beside another copy of the map. -/
theorem handles_refine_heap_shared :
    let source : Store := NameMap.empty.insert "a" "1"
    let before : List Operation := [.makeFromSource, .share 0, .makeFromSource]
    let middle : List Operation := before ++ [.insert 1 "a" "2", .setSource "a" "3"]
    let ops : List Operation := middle ++ [.get 0 "a", .get 2 "a"]
    Valid ops ∧ (after source ops).store 0 = (after source ops).store 1 ∧
      (after source (before ++ [.insert 1 "a" "2"])).store 0 =
        ((after source before).store 0).insert "a" "2" ∧
      ∃ reply, (run { source } ops)[5]? = some reply ∧ Answers source middle (.get 0 "a") reply := by
  intro source before middle ops
  have valid : Valid ops :=
    ((((((Valid.nil.concat .makeFromSource (by decide)).concat (.share 0) (by decide)).concat
      .makeFromSource (by decide)).concat (.insert 1 "a" "2") (by decide)).concat
      (.setSource "a" "3") (by decide)).concat (.get 0 "a") (by decide)).concat (.get 2 "a") (by decide)
  have first (rest : List Operation) : Descends (.makeFromSource :: rest) 0 0 :=
    @Descends.made _ [] rest .makeFromSource rfl rfl
  have second (rest : List Operation) : Descends (.makeFromSource :: .share 0 :: rest) 1 0 :=
    @Descends.shared _ [.makeFromSource] rest 0 0 rfl (first [])
  obtain ⟨-, replies, same, insertion, -⟩ := handles_refine_heap source ops valid
  exact ⟨valid, same 0 1 ⟨0, first _, second _⟩, (insertion before 1 "a" "2" _ rfl).1 0 ⟨0, second _, first _⟩,
    (replies middle (.get 0 "a") [.get 2 "a"] rfl).1⟩

end FlowTree.Bindings

import FlowTree.Proofs.Json.Forms

/-! Records whose fields stand in any order. Entries that do not see each other can be read in any order,
and a field that a record does not know does not count. -/

set_option autoImplicit false

namespace FlowTree

section Records

open Json (Place Tree)

variable {σ α β β' : Type}

structure Entry.Apart (entry entry' : Entry Option Place σ) : Prop where
  given : ∀ place parts next, entry.read place parts = some next → entry'.given next = entry'.given parts
  given' : ∀ place parts next, entry'.read place parts = some next → entry.given next = entry.given parts
  commute : ∀ place place' parts, (entry.read place parts >>= entry'.read place') =
    (entry'.read place' parts >>= entry.read place)

theorem Entry.Apart.symm {entry entry' : Entry Option Place σ} (apart : entry.Apart entry') :
    entry'.Apart entry :=
  ⟨apart.given', apart.given, fun place place' parts => (apart.commute place' place parts).symm⟩

instance : Std.Symm (@Entry.Apart σ) where
  symm _ _ apart := apart.symm

/-- An entry that puts what it takes from its place into the record. -/
structure Entry.Puts (entry : Entry Option Place σ) (take : Place → Option β) (put : β → σ → σ) :
    Prop where
  read : entry.read = fun place parts => do return put (← take place) parts
  given : ∀ b parts, entry.given (put b parts) = true

theorem Entry.Puts.of_read {entry : Entry Option Place σ} {take : Place → Option β} {put : β → σ → σ}
    (puts : entry.Puts take put) {place : Place} {parts next : σ} (read : entry.read place parts = some next) :
    ∃ b, next = put b parts := by
  rw [puts.read] at read
  obtain ⟨b, -, same⟩ := Option.bind_eq_some_iff.1 read
  exact ⟨b, (Option.some.inj same).symm⟩

theorem Entry.Puts.apart {entry entry' : Entry Option Place σ} {take : Place → Option β}
    {take' : Place → Option β'} {put : β → σ → σ} {put' : β' → σ → σ}
    (puts : entry.Puts take put) (puts' : entry'.Puts take' put')
    (given : ∀ b parts, entry'.given (put b parts) = entry'.given parts)
    (given' : ∀ b parts, entry.given (put' b parts) = entry.given parts)
    (commute : ∀ b b' parts, put' b' (put b parts) = put b (put' b' parts)) : entry.Apart entry' where
  given place parts next read := by
    obtain ⟨b, rfl⟩ := puts.of_read read
    exact given b parts
  given' place parts next read := by
    obtain ⟨b, rfl⟩ := puts'.of_read read
    exact given' b parts
  commute place place' parts := by
    simp only [puts.read, puts'.read]
    cases take place with
    | none => cases take' place' <;> rfl
    | some b =>
      cases take' place' with
      | none => rfl
      | some b' => exact congrArg some (commute b b' parts)

/-- A record whose entries can be read in any order, once each. -/
structure Record.Lawful (record : Record Option Place σ α) : Prop where
  puts : ∀ entry ∈ record.entries,
    ∃ (β : Type) (take : Place → Option β) (put : β → σ → σ), entry.Puts take put
  apart : record.entries.Pairwise Entry.Apart
  opened : record.closed = false

def Record.keys (record : Record Option Place σ α) : List String :=
  record.entries.flatMap fun entry => entry.name :: entry.aliases

theorem Record.entry?_eq_none {record : Record Option Place σ α} {key : String}
    (unknown : key ∉ record.keys) : record.entry? key = none := by
  refine List.find?_eq_none.2 fun entry mem answers => unknown ?_
  refine List.mem_flatMap.2 ⟨entry, mem, ?_⟩
  rw [Entry.answersTo, Bool.or_eq_true, decide_eq_true_eq, List.contains_iff_mem] at answers
  exact List.mem_cons.2 (answers.imp_left Eq.symm)

namespace Json.Place

variable {record : Record Option Place σ α} {depth : Nat}

theorem readField_keyless (parts : σ) (tree : Tree) : readField record depth parts (none, tree) = none := rfl

theorem readField_unknown (lawful : record.Lawful) {key : String} (unknown : record.entry? key = none)
    (parts : σ) (tree : Tree) : readField record depth parts (some key, tree) = some parts := by
  simp [readField, unknown, lawful.opened]

theorem readField_known {key : String} {entry : Entry Option Place σ} (known : record.entry? key = some entry)
    (parts : σ) (tree : Tree) : readField record depth parts (some key, tree) =
      if entry.given parts then none else entry.read ⟨depth, tree⟩ parts := by
  simp [readField, known]

theorem readField_twice (lawful : record.Lawful) {key key' : String} {entry : Entry Option Place σ}
    (known : record.entry? key = some entry) (known' : record.entry? key' = some entry) (parts : σ)
    (tree tree' : Tree) :
    (readField record depth parts (some key, tree) >>= (readField record depth · (some key', tree'))) =
      none := by
  rw [readField_known known]
  split
  · rfl
  · cases read : entry.read ⟨depth, tree⟩ parts with
    | none => rfl
    | some next =>
      obtain ⟨_, _, _, puts⟩ := lawful.puts entry (List.mem_of_find?_eq_some known)
      obtain ⟨b, rfl⟩ := puts.of_read read
      have given := puts.given b parts
      simp [readField_known known', given]

theorem readField_apart {key key' : String} {entry entry' : Entry Option Place σ}
    (known : record.entry? key = some entry) (known' : record.entry? key' = some entry')
    (apart : entry.Apart entry') (parts : σ) (tree tree' : Tree) :
    (readField record depth parts (some key, tree) >>= (readField record depth · (some key', tree'))) =
      (readField record depth parts (some key', tree') >>= (readField record depth · (some key, tree))) := by
  have first : (entry.read ⟨depth, tree⟩ parts >>= (readField record depth · (some key', tree'))) =
      if entry'.given parts then none
      else entry.read ⟨depth, tree⟩ parts >>= entry'.read ⟨depth, tree'⟩ := by
    cases read : entry.read ⟨depth, tree⟩ parts with
    | none => simp
    | some next => simp [readField_known known', apart.given _ _ _ read]
  have second : (entry'.read ⟨depth, tree'⟩ parts >>= (readField record depth · (some key, tree))) =
      if entry.given parts then none
      else entry'.read ⟨depth, tree'⟩ parts >>= entry.read ⟨depth, tree⟩ := by
    cases read : entry'.read ⟨depth, tree'⟩ parts with
    | none => simp
    | some next => simp [readField_known known, apart.given' _ _ _ read]
  rw [readField_known known, readField_known known']
  cases given : entry.given parts <;> cases given' : entry'.given parts
  · rw [given', if_neg Bool.false_ne_true] at first
    rw [given, if_neg Bool.false_ne_true] at second
    exact first.trans ((apart.commute _ _ _).trans second.symm)
  · rw [given', if_pos rfl] at first
    exact first
  · rw [given, if_pos rfl] at second
    exact second.symm
  · rfl

theorem readField_comm (lawful : record.Lawful) (parts : σ) (a b : Option String × Tree) :
    (readField record depth parts a >>= (readField record depth · b)) =
      (readField record depth parts b >>= (readField record depth · a)) := by
  obtain ⟨_ | key, tree⟩ := a
  · simp only [readField_keyless, Option.bind_eq_bind, Option.bind_fun_none]
    rfl
  obtain ⟨_ | key', tree'⟩ := b
  · simp only [readField_keyless, Option.bind_eq_bind, Option.bind_fun_none]
    rfl
  cases known : record.entry? key with
  | none => simp [readField_unknown lawful known]
  | some entry =>
    cases known' : record.entry? key' with
    | none => simp [readField_unknown lawful known']
    | some entry' =>
      by_cases same : entry = entry'
      · subst same
        rw [readField_twice lawful known known', readField_twice lawful known' known]
      · have mem := List.mem_of_find?_eq_some known
        have mem' := List.mem_of_find?_eq_some known'
        have apart : entry.Apart entry' :=
          lawful.apart.forall mem mem' same
        exact readField_apart known known' apart parts tree tree'

theorem foldlM_perm {γ : Type} {step : σ → γ → Option σ}
    (comm : ∀ parts a b, (step parts a >>= (step · b)) = (step parts b >>= (step · a)))
    {as bs : List γ} (order : as.Perm bs) (parts : σ) : as.foldlM step parts = bs.foldlM step parts := by
  induction order generalizing parts with
  | nil => rfl
  | cons a _ ih =>
    rw [List.foldlM_cons, List.foldlM_cons]
    exact congrArg (step parts a >>= ·) (funext ih)
  | swap a b rest =>
    simp only [List.foldlM_cons, ← bind_assoc, comm parts a b]
  | trans _ _ first second => rw [first, second]

theorem record_congr {before after : List (Option String × Tree)} {a b : Option String × Tree}
    (same : ∀ depth parts, readField record depth parts a = readField record depth parts b) :
    Place.record record ⟨depth, .object (before ++ a :: after)⟩ =
      Place.record record ⟨depth, .object (before ++ b :: after)⟩ := by
  simp only [Place.record, List.foldlM_append, List.foldlM_cons, same]
  rfl

theorem record_perm (lawful : record.Lawful) {fields fields' : List (Option String × Tree)}
    (order : fields.Perm fields') :
    Place.record record ⟨depth, .object fields⟩ = Place.record record ⟨depth, .object fields'⟩ := by
  have gathered (depth : Nat) : fields.foldlM (readField record depth) record.blank =
      fields'.foldlM (readField record depth) record.blank :=
    foldlM_perm (readField_comm lawful) order record.blank
  simp only [Place.record, gathered]
  rfl

theorem record_unknown (lawful : record.Lawful) {before after : List (Option String × Tree)} {key : String}
    (unknown : record.entry? key = none) (tree : Tree) :
    Place.record record ⟨depth, .object (before ++ (some key, tree) :: after)⟩ =
      Place.record record ⟨depth, .object (before ++ after)⟩ := by
  simp only [Place.record, List.foldlM_append, List.foldlM_cons, readField_unknown lawful unknown]
  rfl

end Json.Place

end Records

end FlowTree

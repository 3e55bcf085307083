import FlowTree.Proofs.Json.Cursors

/-! What a reader gets depends on the form of the text only: places, and so faults, aside, a tree can be
read in place of the text. -/

set_option autoImplicit false

namespace FlowTree

namespace Json

/-- A tree with the number of levels that may still be entered, plus one. -/
structure Place where
  depth : Nat
  tree : Tree

namespace Place

def enter (place : Place) : Option Nat :=
  if place.depth ≤ 1 then none else some (place.depth - 1)

def text (place : Place) : Option String :=
  match place.tree with
  | .text s => s
  | _ => none

def word (place : Place) : Option UInt64 :=
  match place.tree with
  | .number (some (.natural n)) => some (UInt64.ofNat n)
  | _ => none

def optional {α : Type} (read : Place → Option α) (place : Place) : Option (Option α) :=
  match place.tree with
  | .null => some none
  | _ => (read place).map some

def list {α : Type} (read : Place → Option α) (place : Place) : Option (List α) :=
  match place.tree with
  | .list items => do
    let depth ← place.enter
    items.mapM fun tree => read ⟨depth, tree⟩
  | _ => none

def store (place : Place) : Option Store :=
  match place.tree with
  | .object fields => do
    let depth ← place.enter
    let entries ← fields.mapM fun (key, tree) => return (← key, ← text ⟨depth, tree⟩)
    return NameMap.ofList entries
  | _ => none

section Records

variable {σ α : Type}

/-- Reads a field into an entry of a record, unless the record does not know it. -/
def readField (record : Record Option Place σ α) (depth : Nat) (parts : σ)
    (field : Option String × Tree) : Option σ := do
  let key ← field.1
  match record.entry? key with
  | none => if record.closed then none else some parts
  | some entry => if entry.given parts then none else entry.read ⟨depth, field.2⟩ parts

def readItems (depth : Nat) : List (Entry Option Place σ) → List Tree → σ → Option σ
  | [], [], parts => some parts
  | [], _ :: _, _ => none
  | entry :: entries, tree :: rest, parts => do
    let parts ← entry.read ⟨depth, tree⟩ parts
    readItems depth entries rest parts
  | entry :: entries, [], parts =>
    if entry.optional then readItems depth entries [] parts else none

def record (record : Record Option Place σ α) (place : Place) : Option α :=
  match place.tree with
  | .object fields => do
    let depth ← place.enter
    let parts ← fields.foldlM (readField record depth) record.blank
    (record.finish parts).toOption
  | .list items => do
    let depth ← place.enter
    let parts ← readItems depth record.entries items record.blank
    (record.finish parts).toOption
  | _ => none

end Records

def format : Format Option Place where
  text := text
  word := word
  optional := optional
  list := list
  store := store
  record := record
  tooDeep _ := none

end Place

structure Cursor.At (cursor : Cursor) (place : Place) : Prop where
  depth : cursor.depth = place.depth
  form : cursor.node.tree? = some place.tree

def Agree {α : Type} (read : Cursor → Except Fault α) (read' : Place → Option α) : Prop :=
  ∀ cursor place, cursor.At place → (read cursor).toOption = read' place

theorem skipItems_eq_ok {nodes : List Node} {items : List Tree}
    (each : List.Forall₂ (fun node _ => node.skip = .ok ()) nodes items) : skipItems nodes = .ok () := by
  induction each with
  | nil => rfl
  | cons head _ ih =>
    rw [skipItems, head]
    exact ih

theorem skipFields_eq_ok {fields : List Field} {parts : List (Option String × Tree)}
    (each : List.Forall₂ (fun field _ => field.value.skip = .ok ()) fields parts) :
    skipFields fields = .ok () := by
  induction each with
  | nil => rfl
  | @cons field _ _ _ head _ ih =>
    obtain ⟨key, stop, refused, node, next⟩ := field
    have head : node.skip = .ok () := head
    rw [skipFields, head]
    exact ih

theorem Node.skip_of_tree? {node : Node} {tree : Tree} (form : node.tree? = some tree) :
    node.skip = .ok () := by
  induction tree generalizing node with
  | list items ih =>
    cases Node.formed form with
    | list start stop each =>
      have parts := forall₂_of_mem each fun item mem node form => ih item mem form
      rw [Node.skip, skipItems_eq_ok parts]
      rfl
  | object fields ih =>
    cases Node.formed form with
    | object start stop each =>
      have parts := forall₂_of_mem each fun part mem field bears => ih part mem bears.value
      rw [Node.skip, skipFields_eq_ok parts]
      rfl
  | _ =>
    cases Node.formed form
    rfl

namespace Cursor

variable {cursor : Cursor} {place : Place}

theorem At.enter (here : cursor.At place) : cursor.enter.toOption = place.enter := by
  rw [Cursor.enter, Place.enter, here.depth]
  split <;> rfl

theorem agree_text : Agree Cursor.text Place.text := by
  rintro ⟨depth, node⟩ ⟨_, tree⟩ ⟨rfl, form⟩
  cases Node.formed form <;> rfl

theorem agree_word : Agree Cursor.word Place.word := by
  rintro ⟨depth, node⟩ ⟨_, tree⟩ ⟨rfl, form⟩
  cases Node.formed form with
  | number start stop value =>
    cases value with
    | error fault => rfl
    | ok n => cases n <;> rfl
  | _ => rfl

theorem agree_optional {α : Type} {read : Cursor → Except Fault α} {read' : Place → Option α}
    (agree : Agree read read') : Agree (Cursor.optional read) (Place.optional read') := by
  intro cursor place here
  have same := agree cursor place here
  obtain ⟨depth, node⟩ := cursor
  obtain ⟨_, tree⟩ := place
  obtain ⟨rfl, form⟩ := here
  cases Node.formed form with
  | null => rfl
  | _ => exact (toOption_map _ _).trans (congrArg (Option.map some) same)

theorem agree_list {α : Type} {read : Cursor → Except Fault α} {read' : Place → Option α}
    (agree : Agree read read') : Agree (Cursor.list read) (Place.list read') := by
  intro cursor place here
  have entered := here.enter
  obtain ⟨depth, node⟩ := cursor
  obtain ⟨_, tree⟩ := place
  obtain ⟨rfl, form⟩ := here
  cases Node.formed form with
  | list start stop each =>
    rw [Cursor.list, Place.list, toOption_bind, entered]
    congr 1
    funext depth
    have items := toOption_mapM each fun node tree form => agree ⟨depth, node⟩ ⟨depth, tree⟩ ⟨rfl, form⟩
    rw [toOption_bind, items]
    exact bind_pure _
  | _ => rfl

theorem agree_fields {depth : Nat} {fields : List Field} {parts : List (Option String × Tree)}
    (each : List.Forall₂ Field.Bears fields parts) :
    (Cursor.fields Cursor.text depth fields).toOption =
      parts.mapM fun part => do return (← part.1, ← Place.text ⟨depth, part.2⟩) := by
  induction each with
  | nil => rfl
  | @cons field part _ _ head _ ih =>
    have text := agree_text ⟨depth, field.value⟩ ⟨depth, part.2⟩ ⟨rfl, head.value⟩
    rw [Cursor.fields, List.mapM_cons, toOption_bind, head.key]
    cases part.1 with
    | none => rfl
    | some key =>
      simp only [Option.bind_eq_bind, Option.bind_some]
      rw [toOption_bind, text]
      cases Place.text ⟨depth, part.2⟩ with
      | none => rfl
      | some value =>
        simp only [Option.bind_eq_bind, Option.bind_some]
        rw [toOption_bind, ih]
        rfl

theorem agree_store : Agree Cursor.store Place.store := by
  intro cursor place here
  have entered := here.enter
  obtain ⟨depth, node⟩ := cursor
  obtain ⟨_, tree⟩ := place
  obtain ⟨rfl, form⟩ := here
  cases Node.formed form with
  | object start stop each =>
    rw [Cursor.store, Place.store, toOption_bind, entered]
    congr 1
    funext depth
    rw [toOption_bind, agree_fields each]
    rfl
  | _ => rfl

end Cursor

theorem agree_stored {α β : Type} {read : Cursor → Except Fault α} {read' : Place → Option α}
    (agree : Agree read read') (store : α → β) :
    Agree (fun cursor => do return store (← read cursor)) (fun place => do return store (← read' place)) := by
  intro cursor place here
  rw [toOption_bind, agree cursor place here]
  rfl

section Records

variable {σ α : Type}

/-- Entries that differ in what they are read from only. -/
structure EntriesAgree (entry : Entry (Except Fault) Cursor σ) (entry' : Entry Option Place σ) : Prop where
  name : entry.name = entry'.name
  aliases : entry.aliases = entry'.aliases
  given : entry.given = entry'.given
  optional : entry.optional = entry'.optional
  read : ∀ parts, Agree (entry.read · parts) (entry'.read · parts)

structure RecordsAgree (record : Record (Except Fault) Cursor σ α) (record' : Record Option Place σ α) :
    Prop where
  entries : List.Forall₂ EntriesAgree record.entries record'.entries
  blank : record.blank = record'.blank
  finish : record.finish = record'.finish
  closed : record.closed = record'.closed

variable {record : Record (Except Fault) Cursor σ α} {record' : Record Option Place σ α}

theorem RecordsAgree.find (agree : RecordsAgree record record') (key : String) :
    record.entry? key = none ∧ Record.entry? record' key = none ∨
      ∃ entry entry', record.entry? key = some entry ∧ Record.entry? record' key = some entry' ∧
        EntriesAgree entry entry' := by
  obtain ⟨entries, -, -, -⟩ := agree
  unfold Record.entry?
  generalize record.entries = all at entries
  generalize record'.entries = all' at entries
  induction entries with
  | nil => exact .inl ⟨rfl, rfl⟩
  | @cons entry entry' _ _ same _ ih =>
    have answers : entry'.answersTo key = entry.answersTo key := by
      rw [Entry.answersTo, Entry.answersTo, same.name, same.aliases]
    rw [List.find?_cons, List.find?_cons, answers]
    cases entry.answersTo key with
    | true => exact .inr ⟨entry, entry', rfl, rfl, same⟩
    | false => exact ih

namespace Cursor

theorem agree_recordFields (agree : RecordsAgree record record') {depth : Nat} {ending : Ending}
    {fields : List Field} {parts : List (Option String × Tree)}
    (each : List.Forall₂ Field.Bears fields parts) (gathered : σ) :
    (recordFields record depth ending fields gathered).toOption =
      parts.foldlM (Place.readField record' depth) gathered := by
  induction each generalizing gathered with
  | nil => rfl
  | @cons field part rest _ head _ ih =>
    rw [recordFields, List.foldlM_cons, toOption_bind, head.key, Place.readField]
    cases part.1 with
    | none => rfl
    | some key =>
      simp only [Option.bind_eq_bind, Option.bind_some]
      obtain ⟨unknown, unknown'⟩ | ⟨entry, entry', found, found', same⟩ := agree.find key
      · simp only [unknown, unknown', ← agree.closed, Node.skip_of_tree? head.value]
        cases record.closed with
        | true => rfl
        | false => exact ih gathered
      · have read := same.read gathered ⟨depth, field.value⟩ ⟨depth, part.2⟩ ⟨rfl, head.value⟩
        simp only [found, found', ← same.given, ← read]
        cases entry.given gathered with
        | true => rfl
        | false =>
          cases entry.read ⟨depth, field.value⟩ gathered with
          | error => rfl
          | ok gathered => exact ih gathered

theorem agree_recordItems {title : String} {depth stop : Nat} {entries : List (Entry (Except Fault) Cursor σ)}
    {entries' : List (Entry Option Place σ)} (agree : List.Forall₂ EntriesAgree entries entries')
    {items : List Node} {trees : List Tree}
    (each : List.Forall₂ (fun node tree => node.tree? = some tree) items trees) (index : Nat) (gathered : σ) :
    ((recordItems title depth (.closed stop) index entries items gathered).map Prod.fst).toOption =
      Place.readItems depth entries' trees gathered := by
  induction agree generalizing items trees index gathered with
  | nil => cases each <;> rfl
  | @cons entry entry' _ _ same _ ih =>
    cases each with
    | nil =>
      rw [recordItems, Place.readItems, ← same.optional]
      cases entry.optional with
      | true => exact ih .nil (index + 1) gathered
      | false => rfl
    | @cons node tree _ _ head tail =>
      have read := same.read gathered ⟨depth, node⟩ ⟨depth, tree⟩ ⟨rfl, head⟩
      rw [recordItems, Place.readItems]
      simp only [← read]
      cases entry.read ⟨depth, node⟩ gathered with
      | error => rfl
      | ok gathered => exact ih tail (index + 1) gathered

theorem agree_record (agree : RecordsAgree record record') :
    Agree (Cursor.record record) (Place.record record') := by
  intro cursor place here
  have entered := here.enter
  obtain ⟨depth, node⟩ := cursor
  obtain ⟨_, tree⟩ := place
  obtain ⟨rfl, form⟩ := here
  have finish (gathered : σ) (stop : Nat) :
      ((record.finish gathered).mapError fun mismatch =>
        (⟨.mismatch mismatch, some stop⟩ : Fault)).toOption = (record'.finish gathered).toOption := by
    rw [← agree.finish]
    cases record.finish gathered <;> rfl
  cases Node.formed form with
  | object start stop each =>
    rw [Cursor.record, Place.record, toOption_bind, entered]
    congr 1
    funext depth
    rw [toOption_bind, agree_recordFields agree each, agree.blank]
    congr 1
    funext gathered
    exact finish gathered stop
  | @list start stop items trees each =>
    rw [Cursor.record, Place.record, toOption_bind, entered]
    congr 1
    funext depth
    have gathered := @agree_recordItems σ record.listTitle depth stop _ _ agree.entries _ _ each 0 record.blank
    rw [toOption_bind, ← agree.blank, ← gathered]
    cases recordItems record.listTitle depth (.closed stop) 0 record.entries items record.blank with
    | error => rfl
    | ok ended => exact finish ended.1 ended.2
  | _ => rfl

end Cursor

end Records

theorem Tree.Spelled.toOption_ofText {tree : Tree} {text : String} (spelled : tree.Spelled text)
    {α : Type} {read : Cursor → Except Fault α} {read' : Place → Option α} (agree : Agree read read') :
    (ofText read text).toOption = read' ⟨128, tree⟩ := by
  obtain ⟨root, document, form⟩ := spelled.read
  rw [ofText, document, ← agree ⟨128, root⟩ ⟨128, tree⟩ ⟨rfl, form⟩, Document.value]
  cases read ⟨128, root⟩ <;> rfl

end Json

end FlowTree

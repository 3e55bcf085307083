import FlowTree.Mismatch
import FlowTree.Store

/-! Readers that do not depend on a format.

A `Format` says how its nodes are read as texts, numbers, lists and records; a `Record` says which
entries a record has. A type that is described once in these terms can be read from every format. -/

set_option autoImplicit false

namespace FlowTree

/-- One entry of a record that is gathered in a value of type `σ`. -/
structure Entry (m : Type → Type) (ν σ : Type) where
  /-- The name of the entry, and other names for it. -/
  name : String
  aliases : List String := []
  /-- Whether the entry has been read. -/
  given : σ → Bool
  read : ν → σ → m σ
  /-- Whether a record that is written as a list may end before the entry. -/
  optional : Bool := false

structure Record (m : Type → Type) (ν σ α : Type) where
  /-- What a reader of the record expects, for messages. -/
  title : String
  entries : List (Entry m ν σ)
  blank : σ
  /-- The record, unless an entry that it needs is missing. -/
  finish : σ → Except Mismatch α
  /-- Whether entries with other names are refused. -/
  closed : Bool := false
  /-- What a reader expects that meets too short a list, if it is not the title with the number of
  entries. -/
  plainTitle : Bool := false

def Entry.answersTo {m : Type → Type} {ν σ : Type} (entry : Entry m ν σ) (name : String) : Bool :=
  entry.name = name || entry.aliases.contains name

def Record.entry? {m : Type → Type} {ν σ α : Type} (record : Record m ν σ α) (name : String) :
    Option (Entry m ν σ) :=
  record.entries.find? (·.answersTo name)

def Record.names {m : Type → Type} {ν σ α : Type} (record : Record m ν σ α) : List String :=
  record.entries.map (·.name)

def Record.listTitle {m : Type → Type} {ν σ α : Type} (record : Record m ν σ α) : String :=
  let count := record.entries.length
  if record.plainTitle then record.title
  else record.title ++ " with " ++ toString count ++ (if count = 1 then " element" else " elements")

inductive Variant (m : Type → Type) (ν α : Type) where
  /-- A form without content. -/
  | bare (name : String) (value : α)
  /-- A form whose content is a record. -/
  | record (name : String) (read : ν → m α)

def Variant.name {m : Type → Type} {ν α : Type} : Variant m ν α → String
  | bare name _ => name
  | record name _ => name

def Variant.find {m : Type → Type} {ν α : Type} (variants : List (Variant m ν α)) (name : String) :
    Except Mismatch (Variant m ν α) :=
  match variants.find? (·.name = name) with
  | some variant => .ok variant
  | none => .error (.unknownVariant name (variants.map Variant.name))

/-- How the nodes `ν` of a format are read, with failures in `m`. -/
structure Format (m : Type → Type) (ν : Type) where
  text : ν → m String
  /-- An unsigned number of 64 bits. -/
  word : ν → m UInt64
  optional : {α : Type} → (ν → m α) → ν → m (Option α)
  list : {α : Type} → (ν → m α) → ν → m (List α)
  /-- A map from texts to texts; the last entry of a name counts. -/
  store : ν → m Store
  record : {σ α : Type} → Record m ν σ α → ν → m α
  /-- The failure of a node that lies too deep. -/
  tooDeep : {α : Type} → ν → m α

end FlowTree

import FlowTree.Reading
import FlowTree.Yaml.Meaning
import FlowTree.Yaml.Node

/-! Reading YAML trees.

A mismatch is placed at the innermost value whose reader is known; its path tells where that value
stands. Aliases are followed, and counted, since a short text could stand for a huge document. -/

set_option autoImplicit false

namespace FlowTree.Yaml

abbrev Reader := StateT Nat (Except Fault)

def Fault.placedAt (mark : Mark) (path : Path) : Fault → Fault
  | .mismatch found none => .mismatch found (some (mark, path))
  | fault => fault

def placed {α : Type} (mark : Mark) (path : Path) (read : Reader α) : Reader α :=
  fun jumps => (read jumps).mapError (Fault.placedAt mark path)

/-- A node in its document, with the number of collections that may still be entered. -/
structure Cursor where
  document : Document
  path : Path := .root
  depth : Nat
  node : Node

namespace Cursor

def broken {α : Type} (cursor : Cursor) : Reader α :=
  throw (cursor.document.fault.getD .noValue)

def mismatch {α : Type} (found : Mismatch) : Reader α :=
  throw (.mismatch found none)

def repetitionLimit : Nat := 100

/-- The node that an alias stands for; other nodes stand for themselves. -/
def follow (cursor : Cursor) : Reader Cursor :=
  match cursor.node with
  | .alias _ number => do
    let jumps := (← get) + 1
    set jumps
    if jumps > cursor.document.size * repetitionLimit then throw .tooManyAliases
    else match cursor.document.target? number with
      | some node => return { cursor with node }
      | none => cursor.broken
  | _ => return cursor

def unlike {α : Type} (cursor : Cursor) (expected : String) : Reader α :=
  match cursor.node with
  | .scalar _ scalar => mismatch (scalar.unlike expected)
  | .sequence _ _ => mismatch (.kind .list expected)
  | .mapping _ _ => mismatch (.kind .map expected)
  | .void => throw .noValue
  | .alias _ _ | .cut => cursor.broken

def tooDeep {α : Type} (cursor : Cursor) : Reader α :=
  throw (.nestingTooDeep cursor.node.mark)

def enter (cursor : Cursor) : Reader Nat :=
  if cursor.depth = 0 then cursor.tooDeep else return cursor.depth - 1

def within {α : Type} (cursor : Cursor) (read : Cursor → Reader α) : Reader α := do
  let cursor ← cursor.follow
  placed cursor.node.mark cursor.path (read cursor)

/-- The text of any scalar; `expected` is what a reader of other nodes expects. -/
def textOr (expected : String) (cursor : Cursor) : Reader String :=
  cursor.within fun cursor =>
    match cursor.node with
    | .scalar _ scalar => return scalar.text
    | _ => cursor.unlike expected

def text (cursor : Cursor) : Reader String :=
  cursor.textOr "a string"

def word (cursor : Cursor) : Reader UInt64 :=
  cursor.within fun cursor =>
    match cursor.node with
    | .scalar _ scalar =>
      match scalar.word? with
      | some n => return n
      | none => cursor.unlike "u64"
    | _ => cursor.unlike "u64"

/-- A scalar that is written without quotes is absent if it is empty or a null, unless its tag says
otherwise. -/
def optional {α : Type} (read : Cursor → Reader α) (cursor : Cursor) : Reader (Option α) := do
  let cursor ← cursor.follow
  let present : Reader (Option α) := some <$> read cursor
  match cursor.node with
  | .scalar _ scalar =>
    if scalar.style ≠ .plain then present
    else match scalar.tag with
      | none => if scalar.text = "" || Plain.isNull scalar.text then return none else present
      | some tag =>
        if tag ≠ Scalar.typeTag "null" then present
        else if Plain.isNull scalar.text then return none
        else mismatch (.value (.text scalar.text) "null")
  | .void => return none
  | .cut => cursor.broken
  | _ => present

def items {α : Type} (cursor : Cursor) (depth : Nat) (read : Cursor → Reader α) (index : Nat) :
    List Node → Reader (List α)
  | [] => return []
  | node :: rest => do
    let value ← read { cursor with node, depth, path := .item cursor.path index }
    let others ← items cursor depth read (index + 1) rest
    return value :: others

def list {α : Type} (read : Cursor → Reader α) (cursor : Cursor) : Reader (List α) :=
  cursor.within fun cursor =>
    match cursor.node with
    | .sequence _ nodes => do
      let depth ← cursor.enter
      cursor.items depth read 0 nodes
    | .void => return []
    | .scalar _ scalar => if scalar.isBlank then return [] else cursor.unlike "a sequence"
    | _ => cursor.unlike "a sequence"

def valueOf (cursor : Cursor) (depth : Nat) (key value : Node) : Cursor :=
  let path := match key with
    | .scalar _ scalar => .field cursor.path scalar.text
    | _ => .unnamedField cursor.path
  { cursor with node := value, depth, path }

def skip (cursor : Cursor) : Reader Unit :=
  if cursor.node.isCut then cursor.broken else return ()

def fields {α : Type} (cursor : Cursor) (depth : Nat) (read : Cursor → Reader α) :
    List (Node × Node) → Reader (List (String × α))
  | [] => return []
  | (key, value) :: rest => do
    let name ← Cursor.text { cursor with node := key, depth }
    let content ← read (cursor.valueOf depth key value)
    let others ← fields cursor depth read rest
    return (name, content) :: others

def store (cursor : Cursor) : Reader Store :=
  cursor.within fun cursor =>
    match cursor.node with
    | .mapping _ nodes => do
      let depth ← cursor.enter
      return NameMap.ofList (← cursor.fields depth text nodes)
    | .void => return NameMap.empty
    | .scalar _ scalar => if scalar.isBlank then return NameMap.empty else cursor.unlike "a map"
    | _ => cursor.unlike "a map"

section Records

variable {σ α : Type}

/-- Reads the fields of a mapping into the entries of a record. Fields that the record does not know
are skipped, and no entry is given twice. -/
def recordFields (record : Record Reader Cursor σ α) (cursor : Cursor) (depth : Nat) :
    List (Node × Node) → σ → Reader σ
  | [], parts => return parts
  | (key, value) :: rest, parts => do
    let name ← Cursor.textOr "field identifier" { cursor with node := key, depth }
    let content := cursor.valueOf depth key value
    match record.entry? name with
    | none =>
      -- Aliases in a part that nobody wants are not followed.
      if record.closed then mismatch (.unknownField name record.names)
      else
        content.skip
        recordFields record cursor depth rest parts
    | some entry =>
      if entry.given parts then mismatch (.duplicateField entry.name)
      else
        let parts ← entry.read content parts
        recordFields record cursor depth rest parts

def record (record : Record Reader Cursor σ α) (cursor : Cursor) : Reader α :=
  let finish (parts : σ) : Reader α :=
    match record.finish parts with
    | .ok value => return value
    | .error found => mismatch found
  cursor.within fun cursor =>
    match cursor.node with
    | .mapping _ nodes => do
      let depth ← cursor.enter
      finish (← recordFields record cursor depth nodes record.blank)
    | .void => finish record.blank
    | .scalar _ scalar => if scalar.isBlank then finish record.blank else cursor.unlike record.title
    | _ => cursor.unlike record.title

end Records

end Cursor

def format : Format Reader Cursor where
  text := Cursor.text
  word := Cursor.word
  optional := Cursor.optional
  list := Cursor.list
  store := Cursor.store
  record := Cursor.record
  tooDeep := Cursor.tooDeep

def nestingLimit : Nat := 128

/-- Reads the only document of a text. What follows the document is looked at last. -/
def Document.value {α : Type} (document : Document) (read : Cursor → Reader α) : Except Fault α := do
  let (value, _) ← (read { document, depth := nestingLimit, node := document.root }).run 0
  match document.fault with
  | some fault => .error fault
  | none => if document.more then .error .severalDocuments else .ok value

def ofText {α : Type} (read : Cursor → Reader α) (text : String) : Except String α :=
  ((Document.ofText text).value read).mapError Fault.message

end FlowTree.Yaml

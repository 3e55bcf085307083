import FlowTree.Json.Node
import FlowTree.Reading

/-! Reading JSON trees. Each reader meets the parts of a node in their order in the text, so the
fault that it reports is the first one that concerns it. -/

set_option autoImplicit false

namespace FlowTree.Json

def Ending.wantedList : Ending → Except Fault Nat
  | .closed stop => .ok stop
  | .comma start => .error ⟨.trailingComma, some (start + 1)⟩
  | .eof offset => .error ⟨.eofInList, some offset⟩
  | .eofAfterComma offset => .error ⟨.eofInValue, some offset⟩
  | .unexpected start => .error ⟨.listCommaOrEndExpected, some (start + 1)⟩
  | .notKey token => .error ⟨.listCommaOrEndExpected, some (token.start + 1)⟩
  | .brokenKey _ defect => .error defect.wanted
  | .cut => .error ⟨.eofInList, none⟩

def Ending.wantedObject : Ending → Except Fault Nat
  | .closed stop => .ok stop
  | .comma start => .error ⟨.trailingComma, some (start + 1)⟩
  | .eof offset => .error ⟨.eofInObject, some offset⟩
  | .eofAfterComma offset => .error ⟨.eofInValue, some offset⟩
  | .unexpected start => .error ⟨.objectCommaOrEndExpected, some (start + 1)⟩
  | .notKey token => .error ⟨.keyMustBeText, some (token.start + 1)⟩
  | .brokenKey _ defect => .error defect.wanted
  | .cut => .error ⟨.eofInObject, none⟩

def Ending.skippedList : Ending → Except Fault Unit
  | .comma start => .error ⟨.valueExpected, some (start + 1)⟩
  | ending => ending.wantedList.map fun _ => ()

def Ending.skippedObject : Ending → Except Fault Unit
  | .comma start => .error ⟨.keyMustBeText, some (start + 1)⟩
  | .eofAfterComma offset => .error ⟨.eofInObject, some offset⟩
  | .brokenKey _ defect => .error defect.skipped
  | ending => ending.wantedObject.map fun _ => ()

mutual

/-- Passes over a value that nobody wants: only its form matters. -/
def Node.skip : Node → Except Fault Unit
  | .list _ items ending => do
    skipItems items
    ending.skippedList
  | .object _ fields ending => do
    skipFields fields
    ending.skippedObject
  | .brokenText _ defect | .broken _ defect => .error defect.skipped
  | .null _ _ | .boolean _ _ _ | .number _ _ _ | .text _ _ _ => .ok ()

def skipItems : List Node → Except Fault Unit
  | [] => .ok ()
  | node :: rest => do
    Node.skip node
    skipItems rest

def skipFields : List Field → Except Fault Unit
  | [] => .ok ()
  | .mk _ _ _ value _ :: rest => do
    Node.skip value
    skipFields rest

end

def endOfList (items : List Node) (ending : Ending) : Except Fault Nat :=
  match items, ending with
  | node :: _, _ => .error ⟨.trailingCharacters, some (node.start + 1)⟩
  | [], .eofAfterComma offset => .error ⟨.trailingCharacters, some offset⟩
  | [], .unexpected start => .error ⟨.trailingCharacters, some (start + 1)⟩
  | [], ending => ending.wantedList

def Node.unlike (node : Node) (expected : String) : Fault :=
  let kind (found : Found) (offset : Nat) : Fault := ⟨.mismatch (.kind found expected), some offset⟩
  match node with
  | .null _ stop => kind .nothing stop
  | .boolean _ stop b => kind (.boolean b) stop
  | .number _ stop (.ok n) => kind n.found stop
  | .number _ _ (.error fault) => fault
  | .text _ stop (.ok s) => kind (.text s) stop
  | .text _ _ (.error fault) => fault
  | .list start _ _ => kind .list start
  | .object start _ _ => kind .map start
  | .brokenText _ defect | .broken _ defect => defect.wanted

def Fault.orAt (fault : Fault) (offset : Nat) : Fault :=
  { fault with offset := some (fault.offset.getD offset) }

/-- A node with the number of levels that may still be entered, plus one. -/
structure Cursor where
  depth : Nat
  node : Node

namespace Cursor

def tooDeep {α : Type} (cursor : Cursor) : Except Fault α :=
  .error ⟨.nestingTooDeep, some (cursor.node.start + 1)⟩

def enter (cursor : Cursor) : Except Fault Nat :=
  if cursor.depth ≤ 1 then cursor.tooDeep else .ok (cursor.depth - 1)

def text (cursor : Cursor) : Except Fault String :=
  match cursor.node with
  | .text _ _ value => value
  | node => .error (node.unlike "a string")

/-- A number that fits `UInt64`. A number below zero is of the right kind, but out of range. -/
def word (cursor : Cursor) : Except Fault UInt64 :=
  match cursor.node with
  | .number _ _ (.ok (.natural n)) => .ok (UInt64.ofNat n)
  | .number _ stop (.ok (.negative n)) =>
    .error ⟨.mismatch (.value (.integer (-(n : Int))) "u64"), some stop⟩
  | node => .error (node.unlike "u64")

def optional {α : Type} (read : Cursor → Except Fault α) (cursor : Cursor) :
    Except Fault (Option α) :=
  match cursor.node with
  | .null _ _ => .ok none
  | _ => (read cursor).map some

def list {α : Type} (read : Cursor → Except Fault α) (cursor : Cursor) : Except Fault (List α) :=
  match cursor.node with
  | .list _ items ending => do
    let depth ← cursor.enter
    let values ← items.mapM fun node => read ⟨depth, node⟩
    let _ ← ending.wantedList
    return values
  | node => .error (node.unlike "a sequence")

def fields {α : Type} (read : Cursor → Except Fault α) (depth : Nat) :
    List Field → Except Fault (List (String × α))
  | [] => .ok []
  | field :: rest => do
    let key ← field.key
    let value ← read ⟨depth, field.value⟩
    let others ← fields read depth rest
    return (key, value) :: others

def store (cursor : Cursor) : Except Fault Store :=
  match cursor.node with
  | .object _ parts ending => do
    let depth ← cursor.enter
    let entries ← fields text depth parts
    let _ ← ending.wantedObject
    return NameMap.ofList entries
  | node => .error (node.unlike "a map")

/-- Where a reader stands that gives up after a field and looks for the end of the object. -/
def afterField (field : Field) (rest : List Field) (ending : Ending) : Nat :=
  match rest, ending with
  | [], .closed stop => stop
  | _, _ => field.next

/-- Where a reader stands that gives up after an item and looks for the end of the list. -/
def afterItem (rest : List Node) (ending : Ending) : Nat :=
  match rest, ending with
  | node :: _, _ => node.start
  | [], .closed stop => stop
  | [], .comma start | [], .unexpected start | [], .brokenKey start _ => start
  | [], .eof offset | [], .eofAfterComma offset => offset
  | [], .notKey token => token.start
  | [], .cut => 0

section Records

variable {σ α : Type}

/-- Reads the fields of an object into the entries of a record. Fields that the record does not know
are skipped, and no entry is given twice. -/
def recordFields (record : Record (Except Fault) Cursor σ α) (depth : Nat) (ending : Ending) :
    List Field → σ → Except Fault σ
  | [], parts => .ok parts
  | field :: rest, parts => do
    let key ← field.key
    match record.entry? key with
    | none =>
      if record.closed then
        .error ⟨.mismatch (.unknownField key record.names), some field.refused⟩
      field.value.skip
      recordFields record depth ending rest parts
    | some entry =>
      if entry.given parts then
        .error ⟨.mismatch (.duplicateField entry.name), some field.refused⟩
      else
        match entry.read ⟨depth, field.value⟩ parts with
        | .ok parts => recordFields record depth ending rest parts
        | .error fault => .error (fault.orAt (afterField field rest ending))

/-- Reads the items of a list into the entries of a record, in their order, and gives the offset
after the list. -/
def recordItems (title : String) (depth : Nat) (ending : Ending) :
    (index : Nat) → List (Entry (Except Fault) Cursor σ) → List Node → σ → Except Fault (σ × Nat)
  | _, [], items, parts => (endOfList items ending).map (parts, ·)
  | index, entry :: entries, node :: rest, parts =>
    match entry.read ⟨depth, node⟩ parts with
    | .ok parts => recordItems title depth ending (index + 1) entries rest parts
    | .error fault => .error (fault.orAt (afterItem rest ending))
  | index, entry :: entries, [], parts => do
    let stop ← ending.wantedList
    if entry.optional then recordItems title depth ending (index + 1) entries [] parts
    else .error ⟨.mismatch (.length index title), some stop⟩

def record (record : Record (Except Fault) Cursor σ α) (cursor : Cursor) : Except Fault α :=
  let finish (parts : σ) (stop : Nat) : Except Fault α :=
    (record.finish parts).mapError fun mismatch => ⟨.mismatch mismatch, some stop⟩
  match cursor.node with
  | .object _ fields ending => do
    let depth ← cursor.enter
    let parts ← recordFields record depth ending fields record.blank
    let stop ← ending.wantedObject
    finish parts stop
  | .list _ items ending => do
    let depth ← cursor.enter
    let (parts, stop) ←
      recordItems record.listTitle depth ending 0 record.entries items record.blank
    finish parts stop
  | node => .error (node.unlike record.title)

end Records

end Cursor

def format : Format (Except Fault) Cursor where
  text := Cursor.text
  word := Cursor.word
  optional := Cursor.optional
  list := Cursor.list
  store := Cursor.store
  record := Cursor.record
  tooDeep := Cursor.tooDeep

def Document.value {α : Type} (document : Document) (read : Cursor → Except Fault α) :
    Except Fault α := do
  let value ← read ⟨128, document.root⟩
  match document.trailing with
  | none => return value
  | some start => .error ⟨.trailingCharacters, some (start + 1)⟩

def ofText {α : Type} (read : Cursor → Except Fault α) (text : String) : Except String α :=
  ((Document.read text).value read).mapError (·.message text)

end FlowTree.Json

import FlowTree.Json.Value

/-! Reading JSON values that have been taken out of their text. Their faults have no place. -/

set_option autoImplicit false

namespace FlowTree.Json.Value

def found : Value → Found
  | .null => .nothing
  | .boolean b => .boolean b
  | .number n => n.found
  | .text s => .text s
  | .list _ => .list
  | .object _ => .map

def fault {α : Type} (mismatch : Mismatch) : Except Fault α :=
  .error { cause := .mismatch mismatch }

def unlike {α : Type} (value : Value) (expected : String) : Except Fault α :=
  fault (.kind value.found expected)

def readText : Value → Except Fault String
  | .text s => .ok s
  | value => value.unlike "a string"

def readNatural (bound : Nat) (name : String) : Value → Except Fault Nat
  | .number (.natural n) => if n < bound then .ok n else fault (.value (.integer n) name)
  | .number (.negative n) => fault (.value (.integer (-(n : Int))) name)
  | value => value.unlike name

def readOptional {α : Type} (read : Value → Except Fault α) : Value → Except Fault (Option α)
  | .null => .ok none
  | value => (read value).map some

def readList {α : Type} (read : Value → Except Fault α) : Value → Except Fault (List α)
  | .list items => items.mapM read
  | value => value.unlike "a sequence"

def readStore : Value → Except Fault Store
  | .object members => do
    let entries ← members.mapM fun (name, value) => return (name, ← readText value)
    return NameMap.ofList entries
  | value => value.unlike "a map"

def tooLong {α : Type} (taken left : Nat) : Except Fault α :=
  fault (.length (taken + left)
    (Text.decimal taken ++ (if taken = 1 then " element" else " elements") ++ " in sequence"))

section Records

variable {σ α : Type}

def recordMembers (record : Record (Except Fault) Value σ α) :
    List (String × Value) → σ → Except Fault σ
  | [], parts => .ok parts
  | (name, value) :: rest, parts =>
    match record.entry? name with
    | none =>
      if record.closed then fault (.unknownField name record.names)
      else recordMembers record rest parts
    | some entry =>
      if entry.given parts then fault (.duplicateField entry.name)
      else do
        let parts ← entry.read value parts
        recordMembers record rest parts

def recordItems (title : String) :
    (index : Nat) → List (Entry (Except Fault) Value σ) → List Value → σ → Except Fault σ
  | _, [], _, parts => .ok parts
  | index, entry :: entries, value :: rest, parts => do
    let parts ← entry.read value parts
    recordItems title (index + 1) entries rest parts
  | index, entry :: entries, [], parts =>
    if entry.optional then recordItems title (index + 1) entries [] parts
    else fault (.length index title)

def readRecord (record : Record (Except Fault) Value σ α) (value : Value) : Except Fault α :=
  let finish (parts : σ) : Except Fault α :=
    (record.finish parts).mapError fun mismatch => { cause := .mismatch mismatch }
  match value with
  | .object members => do finish (← recordMembers record members record.blank)
  | .list items => do
    let parts ← recordItems record.listTitle 0 record.entries items record.blank
    let whole ← finish parts
    let taken := record.entries.length
    if taken < items.length then tooLong taken (items.length - taken) else return whole
  | value => value.unlike record.title

end Records

def format : Format (Except Fault) Value where
  text := readText
  word value := UInt64.ofNat <$> readNatural Text.wordBound "u64" value
  optional := readOptional
  list := readList
  store := readStore
  record := readRecord
  tooDeep _ := .error { cause := .nestingTooDeep }

end FlowTree.Json.Value

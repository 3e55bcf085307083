import FlowTree.Json.Reading

/-! JSON values apart from any text, and the texts that are written for them. -/

set_option autoImplicit false

namespace FlowTree.Json

inductive Value where
  | null
  | boolean (b : Bool)
  | number (n : Number)
  | text (s : String)
  | list (items : List Value)
  /-- Members in their order; a name may occur more than once. -/
  | object (members : List (String × Value))

instance : Inhabited Value := ⟨.null⟩

namespace Value

def natural (n : Nat) : Value := .number (.natural n)

def texts (items : List String) : Value := .list (items.map .text)

def ofStore (store : Store) : Value :=
  .object (store.toList.map fun (name, value) => (name, .text value))

def option {α : Type} (write : α → Value) : Option α → Value
  | some a => write a
  | none => .null

def optionalMember {α : Type} (name : String) (write : α → Value) :
    Option α → List (String × Value)
  | some a => [(name, write a)]
  | none => []

def escape (c : Char) : List Char :=
  match c with
  | '"' => ['\\', '"']
  | '\\' => ['\\', '\\']
  | '\x08' => ['\\', 'b']
  | '\t' => ['\\', 't']
  | '\n' => ['\\', 'n']
  | '\x0c' => ['\\', 'f']
  | '\r' => ['\\', 'r']
  | c =>
    if c.toNat < 0x20 then
      ['\\', 'u', '0', '0', Nat.digitChar (c.toNat / 16), Nat.digitChar (c.toNat % 16)]
    else [c]

def quote (s : String) : List Char :=
  '"' :: s.toList.flatMap escape ++ ['"']

def numberText : Number → String
  | .natural n => Text.decimal n
  | .negative n => "-" ++ Text.decimal n
  | .real bits => Text.compactReal.text bits

mutual

def compact : Value → List Char
  | .null => ['n', 'u', 'l', 'l']
  | .boolean b => (if b then "true" else "false").toList
  | .number n => (numberText n).toList
  | .text s => quote s
  | .list items => '[' :: compactItems items ++ [']']
  | .object members => '{' :: compactMembers members ++ ['}']

def compactItems : List Value → List Char
  | [] => []
  | [last] => compact last
  | item :: rest => compact item ++ ',' :: compactItems rest

def compactMembers : List (String × Value) → List Char
  | [] => []
  | [(name, value)] => quote name ++ ':' :: compact value
  | (name, value) :: rest => quote name ++ ':' :: compact value ++ ',' :: compactMembers rest

end

def line (level : Nat) : List Char :=
  '\n' :: List.replicate (2 * level) ' '

mutual

def pretty (level : Nat) : Value → List Char
  | .list [] => ['[', ']']
  | .list items => '[' :: prettyItems (level + 1) items ++ line level ++ [']']
  | .object [] => ['{', '}']
  | .object members => '{' :: prettyMembers (level + 1) members ++ line level ++ ['}']
  | other => compact other

def prettyItems (level : Nat) : List Value → List Char
  | [] => []
  | [last] => line level ++ pretty level last
  | item :: rest => line level ++ pretty level item ++ ',' :: prettyItems level rest

def prettyMembers (level : Nat) : List (String × Value) → List Char
  | [] => []
  | [(name, value)] => line level ++ quote name ++ ':' :: ' ' :: pretty level value
  | (name, value) :: rest =>
    line level ++ quote name ++ ':' :: ' ' :: pretty level value ++ ',' :: prettyMembers level rest

end

def toText (value : Value) : String := String.ofList value.compact

def toPrettyText (value : Value) : String := String.ofList (value.pretty 0)

end Value

mutual

def Node.toValue (depth : Nat) : Node → Except Fault Value
  | .null _ _ => .ok .null
  | .boolean _ _ b => .ok (.boolean b)
  | .number _ _ value => value.map .number
  | .text _ _ value => value.map .text
  | .list start items ending => do
    let depth ← Cursor.enter ⟨depth, .list start items ending⟩
    let values ← toValues depth items
    let _ ← ending.wantedList
    return .list values
  | .object start fields ending => do
    let depth ← Cursor.enter ⟨depth, .object start fields ending⟩
    let members ← toMembers depth fields
    let _ ← ending.wantedObject
    return .object members
  | .brokenText _ defect | .broken _ defect => .error defect.wanted

def toValues (depth : Nat) : List Node → Except Fault (List Value)
  | [] => .ok []
  | node :: rest => do
    let value ← Node.toValue depth node
    let others ← toValues depth rest
    return value :: others

def toMembers (depth : Nat) : List Field → Except Fault (List (String × Value))
  | [] => .ok []
  | .mk key _ _ node _ :: rest => do
    let name ← key
    let value ← Node.toValue depth node
    let others ← toMembers depth rest
    return (name, value) :: others

end

end FlowTree.Json

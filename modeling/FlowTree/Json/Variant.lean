import FlowTree.Json.Plain

/-! Reading the forms of a type in JSON. A form is written as its name, or as an object with one
member, whose name is that of the form and whose value is its content. -/

set_option autoImplicit false

namespace FlowTree.Json

namespace Cursor

variable {α : Type}

def notVariant (start : Nat) : Except Fault α :=
  .error ⟨.valueExpected, some (start + 1)⟩

def nameless (placed : Placed) : Fault :=
  match Document.opening placed with
  | .done node | .breaks node => node.unlike "variant identifier"
  | .opens (.listStart start) => Node.unlike (.list start [] .cut) "variant identifier"
  | .opens _ => Node.unlike (.object placed.start [] .cut) "variant identifier"

def memberless : Ending → Fault
  | .closed stop => ⟨.valueExpected, some stop⟩
  | .eof offset | .eofAfterComma offset => ⟨.eofInValue, some offset⟩
  | .comma start | .unexpected start => ⟨.valueExpected, some (start + 1)⟩
  | .notKey token => nameless token
  | .brokenKey _ defect => defect.wanted
  | .cut => ⟨.eofInValue, none⟩

def endOfVariant (next : Nat) (rest : List Field) (ending : Ending) : Except Fault Unit :=
  match rest, ending with
  | [], .closed _ => .ok ()
  | [], .eof offset => .error ⟨.eofInObject, some offset⟩
  | [], .cut => .error ⟨.eofInObject, none⟩
  | _, _ => .error ⟨.valueExpected, some next⟩

def content (cursor : Cursor) : Variant (Except Fault) Cursor α → Except Fault α
  | .bare _ value =>
    match cursor.node with
    | .null _ _ => .ok value
    | node => .error (node.unlike "unit")
  | .record _ read => read cursor

def variant (variants : List (Variant (Except Fault) Cursor α)) (cursor : Cursor) :
    Except Fault α :=
  let named (name : String) (stop : Nat) : Except Fault (Variant (Except Fault) Cursor α) :=
    (Variant.find variants name).mapError fun mismatch => ⟨.mismatch mismatch, some stop⟩
  match cursor.node with
  | .text _ stop name => do
    match ← named (← name) stop with
    | .bare _ value => return value
    | .record _ _ => .error { cause := .mismatch (.kind .bareVariant "struct variant") }
  | .object _ fields ending => do
    let depth ← cursor.enter
    match fields with
    | [] => .error (memberless ending)
    | field :: rest =>
      let form ← named (← field.key) field.stop
      let value ← content ⟨depth, field.value⟩ form
      endOfVariant field.next rest ending
      return value
  | .brokenText _ defect => .error defect.wanted
  | .broken start defect =>
    if defect.wanted.offset = some start then .error defect.wanted else notVariant start
  | node => notVariant node.start

end Cursor

namespace Value

variable {α : Type}

def readVariant (variants : List (Variant (Except Fault) Value α)) (value : Value) :
    Except Fault α :=
  let named (name : String) : Except Fault (Variant (Except Fault) Value α) :=
    (Variant.find variants name).mapError fun mismatch => { cause := .mismatch mismatch }
  match value with
  | .text name => do
    match ← named name with
    | .bare _ value => return value
    | .record _ _ => fault (.kind .bareVariant "struct variant")
  | .object [(name, content)] => do
    match ← named name with
    | .bare _ value =>
      match content with
      | .null => return value
      | content => content.unlike "unit"
    | .record _ read =>
      match content with
      | .object members => read (.object members)
      | content => content.unlike "struct variant"
  | .object _ => fault (.value .map "map with a single key")
  | value => value.unlike "string or map"

end Value

end FlowTree.Json

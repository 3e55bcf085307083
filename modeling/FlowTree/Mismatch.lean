import FlowTree.Text.Quoted

/-! How a document can fail to be what a reader expects, whatever format it is written in. -/

set_option autoImplicit false

namespace FlowTree

/-- What a reader met where it expected something else. -/
inductive Found where
  /-- The absence of a value. -/
  | nothing
  | boolean (b : Bool)
  | integer (n : Int)
  /-- An integer beyond 64 bits; `negative` tells whether it needed a sign. -/
  | wide (n : Int) (negative : Bool)
  /-- A number with a fraction or an exponent, by its text. -/
  | real (text : String)
  | text (s : String)
  | list
  | map
  /-- A variant that stands alone, without the fields it needs. -/
  | bareVariant
  deriving DecidableEq

def Found.description (absent : String) : Found → String
  | .nothing => absent
  | .boolean b => "boolean \x60" ++ (if b then "true" else "false") ++ "\x60"
  | .integer n => "integer \x60" ++ toString n ++ "\x60"
  | .wide n negative =>
    "integer \x60" ++ toString n ++ "\x60 as " ++ (if negative then "i128" else "u128")
  | .real shown => "floating point \x60" ++ shown ++ "\x60"
  | .text s => "string " ++ Text.quoted s
  | .list => "sequence"
  | .map => "map"
  | .bareVariant => "unit variant"

inductive Mismatch where
  | kind (found : Found) (expected : String)
  /-- The right kind of value, out of its range. -/
  | value (found : Found) (expected : String)
  | length (count : Nat) (expected : String)
  | missingField (name : String)
  | duplicateField (name : String)
  | unknownVariant (name : String) (known : List String)
  | unknownField (name : String) (known : List String)
  /-- A duration of more seconds than a 64-bit word holds. -/
  | durationOverflow
  deriving DecidableEq

namespace Mismatch

def ticked (name : String) : String := "\x60" ++ name ++ "\x60"

def choice : List String → String
  | [] => "there are no variants"
  | [one] => "expected " ++ ticked one
  | [one, two] => "expected " ++ ticked one ++ " or " ++ ticked two
  | many => "expected one of " ++ String.intercalate ", " (many.map ticked)

def message (absent : String) : Mismatch → String
  | .kind found expected =>
    "invalid type: " ++ found.description absent ++ ", expected " ++ expected
  | .value found expected =>
    "invalid value: " ++ found.description absent ++ ", expected " ++ expected
  | .length count expected =>
    "invalid length " ++ toString count ++ ", expected " ++ expected
  | .missingField name => "missing field " ++ ticked name
  | .duplicateField name => "duplicate field " ++ ticked name
  | .unknownVariant name known => "unknown variant " ++ ticked name ++ ", " ++ choice known
  | .unknownField name known => "unknown field " ++ ticked name ++ ", " ++ choice known
  | .durationOverflow => "overflow deserializing Duration"

end Mismatch

end FlowTree

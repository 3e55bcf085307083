/-! Execution ids: 128 bits, written as hexadecimal digits in five groups. -/

set_option autoImplicit false

namespace FlowTree.ExecutionId

def groups : List Nat := [4, 2, 2, 2, 6]

def hexDigit (value : Nat) : Char :=
  if value < 10 then Char.ofNat ('0'.toNat + value) else Char.ofNat ('a'.toNat + (value - 10))

def hexByte (byte : UInt8) : List Char :=
  [hexDigit (byte.toNat / 16), hexDigit (byte.toNat % 16)]

/-- Marks bytes as a random id: the version is four, and the variant starts with the bits one and
zero. -/
def marked (bytes : List UInt8) : List UInt8 :=
  (bytes.modify 6 fun byte => byte &&& 0x0f ||| 0x40).modify 8 fun byte => byte &&& 0x3f ||| 0x80

def grouped : List Nat → List UInt8 → List (List Char)
  | [], _ => []
  | size :: sizes, bytes => (bytes.take size).flatMap hexByte :: grouped sizes (bytes.drop size)

def ofRandom (bytes : List UInt8) : String :=
  String.ofList (['-'].intercalate (grouped groups (marked bytes)))

example : ofRandom (List.replicate 16 255) = "ffffffff-ffff-4fff-bfff-ffffffffffff" := by
  decide +kernel

end FlowTree.ExecutionId

import FlowTree.Mismatch

/-! Why a JSON text is refused, and where. Places are byte offsets; a message gives them as a line
and a column, both counted in bytes of the UTF-8 form. -/

set_option autoImplicit false

namespace FlowTree.Json

inductive Cause where
  | eofInList
  | eofInObject
  | eofInText
  | eofInValue
  | colonExpected
  | listCommaOrEndExpected
  | objectCommaOrEndExpected
  | wordExpected
  | valueExpected
  | invalidEscape
  | invalidNumber
  | numberOutOfRange
  | controlCharacter
  | keyMustBeText
  | loneSurrogate
  | trailingComma
  | trailingCharacters
  | unfinishedSurrogatePair
  | nestingTooDeep
  | mismatch (mismatch : Mismatch)
  deriving DecidableEq

def Cause.message : Cause → String
  | .eofInList => "EOF while parsing a list"
  | .eofInObject => "EOF while parsing an object"
  | .eofInText => "EOF while parsing a string"
  | .eofInValue => "EOF while parsing a value"
  | .colonExpected => "expected \x60:\x60"
  | .listCommaOrEndExpected => "expected \x60,\x60 or \x60]\x60"
  | .objectCommaOrEndExpected => "expected \x60,\x60 or \x60\x7d\x60"
  | .wordExpected => "expected ident"
  | .valueExpected => "expected value"
  | .invalidEscape => "invalid escape"
  | .invalidNumber => "invalid number"
  | .numberOutOfRange => "number out of range"
  | .controlCharacter => "control character (\\u0000-\\u001F) found while parsing a string"
  | .keyMustBeText => "key must be a string"
  | .loneSurrogate => "lone leading surrogate in hex escape"
  | .trailingComma => "trailing comma"
  | .trailingCharacters => "trailing characters"
  | .unfinishedSurrogatePair => "unexpected end of hex escape"
  | .nestingTooDeep => "recursion limit exceeded"
  | .mismatch found => found.message "null"

/-- A cause with the offset at which it is reported; a value that is judged apart from its text has
no offset. -/
structure Fault where
  cause : Cause
  offset : Option Nat := none
  deriving DecidableEq

def placeFrom (line column : Nat) : List Char → Nat → Nat × Nat
  | [], _ => (line, column)
  | c :: rest, offset =>
    if offset = 0 then (line, column)
    else if offset < c.utf8Size then (line, column + offset)
    else if c = '\n' then placeFrom (line + 1) 0 rest (offset - 1)
    else placeFrom line (column + c.utf8Size) rest (offset - c.utf8Size)

def Fault.message (fault : Fault) (text : String) : String :=
  match fault.offset with
  | none => fault.cause.message
  | some offset =>
    let (line, column) := placeFrom 1 0 text.toList offset
    fault.cause.message ++ " at line " ++ toString line ++ " column " ++ toString column

end FlowTree.Json

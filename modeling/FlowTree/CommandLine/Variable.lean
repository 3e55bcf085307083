/-! Variables given as `KEY=VALUE`. -/

set_option autoImplicit false

namespace FlowTree.CommandLine

inductive VariableError where
  /-- There is no separator. -/
  | unseparated (raw : String)
  | unnamed (raw : String)
  deriving DecidableEq

def VariableError.message : VariableError → String
  | .unseparated raw => "expected KEY=VALUE, got '" ++ raw ++ "'"
  | .unnamed raw => "empty variable name in '" ++ raw ++ "'"

def splitAtEquals? (cs : List Char) : Option (List Char × List Char) :=
  let key := cs.takeWhile (· ≠ '=')
  match cs.drop key.length with
  | '=' :: value => some (key, value)
  | _ => none

def parseVariable (raw : String) : Except VariableError (String × String) :=
  match splitAtEquals? raw.toList with
  | none => .error (.unseparated raw)
  | some ([], _) => .error (.unnamed raw)
  | some (key, value) => .ok (String.ofList key, String.ofList value)

end FlowTree.CommandLine

import FlowTree.Json.Value

/-! What a run that went well gives to its caller. -/

set_option autoImplicit false

namespace FlowTree

structure Completion where
  executionId : String
  deriving DecidableEq

namespace Completion

def toJson (completion : Completion) : Json.Value :=
  .object [("execution_id", .text completion.executionId)]

variable {m : Type → Type} [Monad m] {ν : Type}

def record (format : Format m ν) : Record m ν (Option String) Completion where
  title := "struct InvokeResult"
  entries := [
    { name := "execution_id", given := (·.isSome)
      read := fun node _ => return some (← format.text node) }]
  blank := none
  finish
    | some executionId => .ok { executionId }
    | none => .error (.missingField "execution_id")

def ofJson (text : String) : Except String Completion :=
  Json.ofText (Json.Cursor.record (record Json.format)) text

end Completion

end FlowTree

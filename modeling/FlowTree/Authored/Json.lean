import FlowTree.Authored.Reading
import FlowTree.Json.Value

/-! Authored workflows in JSON. Entries that are unset, and empty argument lists, are not written. -/

set_option autoImplicit false

namespace FlowTree.Authored

open Json (Value)

def Invocation.toJson (call : Invocation) : Value :=
  .object ([("name", .text call.name)] ++
    (if call.arguments = [] then [] else [("arguments", Value.texts call.arguments)]) ++
    Value.optionalMember "result" .text call.result ++
    Value.optionalMember "timeout_ms" (fun ms => .natural ms.toNat) call.timeoutMs)

mutual

def Statement.toJson : Statement → Value
  | ⟨invocation, sequence, parallel⟩ =>
    .object (Value.optionalMember "invocation" Invocation.toJson invocation ++
      Statement.blockToJson "sequence" "elements" sequence ++
      Statement.blockToJson "parallel" "branches" parallel)

def Statement.blockToJson (name inner : String) :
    Option (List Statement) → List (String × Value)
  | none => []
  | some parts => [(name, .object [(inner, .list (Statement.partsToJson parts))])]

def Statement.partsToJson : List Statement → List Value
  | [] => []
  | s :: rest => Statement.toJson s :: Statement.partsToJson rest

end

def Workflow.toJson (workflow : Workflow) : Value :=
  .object (Value.optionalMember "workflow_id" .text workflow.workflowId ++
    Value.optionalMember "name" .text workflow.name ++
    [("variables", Value.ofStore workflow.seed), ("root", workflow.root.toJson)])

def Workflow.ofJson (text : String) : Except String Workflow :=
  Json.ofText (Workflow.read Json.format) text

def Statement.ofJson (text : String) : Except String Statement :=
  Json.ofText (Statement.read Json.format nestingLimit) text

end FlowTree.Authored

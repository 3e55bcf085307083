import FlowTree.Authored
import FlowTree.Reading

/-! How authored workflows are read, in any format. -/

set_option autoImplicit false

namespace FlowTree.Authored

variable {m : Type → Type} [Monad m] {ν : Type}

structure InvocationParts where
  name : Option String := none
  arguments : Option (List String) := none
  result : Option (Option String) := none
  timeoutMs : Option (Option UInt64) := none

def Invocation.record (format : Format m ν) : Record m ν InvocationParts Invocation where
  title := "struct InvocationDef"
  entries := [
    { name := "name", given := (·.name.isSome)
      read := fun node parts => return { parts with name := some (← format.text node) } },
    { name := "arguments", given := (·.arguments.isSome), optional := true
      read := fun node parts =>
        return { parts with arguments := some (← format.list format.text node) } },
    { name := "result", given := (·.result.isSome), optional := true
      read := fun node parts =>
        return { parts with result := some (← format.optional format.text node) } },
    { name := "timeout_ms", given := (·.timeoutMs.isSome)
      read := fun node parts =>
        return { parts with timeoutMs := some (← format.optional format.word node) } }]
  blank := {}
  finish parts := match parts.name with
    | none => .error (.missingField "name")
    | some name => .ok {
        name
        arguments := parts.arguments.getD []
        result := parts.result.getD none
        timeoutMs := parts.timeoutMs.getD none }

/-- A record around the parts of a sequence or a parallel block; without its only entry it has no
parts. -/
def partsRecord (format : Format m ν) (title name : String) (part : ν → m Statement) :
    Record m ν (Option (List Statement)) (List Statement) where
  title
  entries := [
    { name, given := (·.isSome), optional := true
      read := fun node _ => return some (← format.list part node) }]
  blank := none
  finish parts := .ok (parts.getD [])

structure StatementParts where
  invocation : Option (Option Invocation) := none
  sequence : Option (Option (List Statement)) := none
  parallel : Option (Option (List Statement)) := none

def Statement.record (format : Format m ν) (part : ν → m Statement) :
    Record m ν StatementParts Statement where
  title := "struct StatementDef"
  entries := [
    { name := "invocation", aliases := ["activity"], given := (·.invocation.isSome)
      optional := true
      read := fun node parts => return { parts with
        invocation := some (← format.optional (format.record (Invocation.record format)) node) } },
    { name := "sequence", given := (·.sequence.isSome), optional := true
      read := fun node parts => return { parts with
        sequence := some (← format.optional
          (format.record (partsRecord format "struct SequenceDef" "elements" part)) node) } },
    { name := "parallel", given := (·.parallel.isSome), optional := true
      read := fun node parts => return { parts with
        parallel := some (← format.optional
          (format.record (partsRecord format "struct ParallelDef" "branches" part)) node) } }]
  blank := {}
  finish parts := .ok {
    invocation := parts.invocation.getD none
    sequence := parts.sequence.getD none
    parallel := parts.parallel.getD none }

def Statement.read (format : Format m ν) : (depth : Nat) → ν → m Statement
  | 0, node => format.tooDeep node
  | depth + 1, node => format.record (Statement.record format (Statement.read format depth)) node

structure WorkflowParts where
  workflowId : Option (Option String) := none
  name : Option (Option String) := none
  seed : Option Store := none
  root : Option Statement := none

def nestingLimit : Nat := 128

def Workflow.record (format : Format m ν) : Record m ν WorkflowParts Workflow where
  title := "struct WorkflowDef"
  entries := [
    { name := "workflow_id", given := (·.workflowId.isSome), optional := true
      read := fun node parts =>
        return { parts with workflowId := some (← format.optional format.text node) } },
    { name := "name", given := (·.name.isSome), optional := true
      read := fun node parts =>
        return { parts with name := some (← format.optional format.text node) } },
    { name := "variables", given := (·.seed.isSome), optional := true
      read := fun node parts => return { parts with seed := some (← format.store node) } },
    { name := "root", given := (·.root.isSome), optional := true
      read := fun node parts =>
        return { parts with root := some (← Statement.read format nestingLimit node) } }]
  blank := {}
  finish parts := .ok {
    workflowId := parts.workflowId.getD none
    name := parts.name.getD none
    seed := parts.seed.getD NameMap.empty
    root := parts.root.getD {} }

def Workflow.read (format : Format m ν) (node : ν) : m Workflow :=
  format.record (Workflow.record format) node

end FlowTree.Authored

import FlowTree.Event
import FlowTree.Json.Variant

/-! Reading events from JSON. -/

set_option autoImplicit false

namespace FlowTree.Event

open Json (Value Fault Cursor)

/-- The fields of an event that have been read. The last one is a text or, in one form of event, a
list. -/
structure Parts where
  executionId : Option String := none
  name : Option String := none
  inputs : Option (List String) := none
  detail : Option String := none

section Records

variable {m : Type → Type} [Monad m] {ν : Type} (format : Format m ν)

def executionIdEntry : Entry m ν Parts where
  name := "execution_id"
  given := (·.executionId.isSome)
  read node parts := return { parts with executionId := some (← format.text node) }

def nameEntry : Entry m ν Parts where
  name := "name"
  given := (·.name.isSome)
  read node parts := return { parts with name := some (← format.text node) }

def inputsEntry : Entry m ν Parts where
  name := "inputs"
  given := (·.inputs.isSome)
  read node parts := return { parts with inputs := some (← format.list format.text node) }

def detailEntry (name : String) : Entry m ν Parts where
  name
  given := (·.detail.isSome)
  read node parts := return { parts with detail := some (← format.text node) }

def need {α : Type} (name : String) : Option α → Except Mismatch α
  | some value => .ok value
  | none => .error (.missingField name)

def variant (name : String) (entries : List (Entry m ν Parts))
    (finish : Parts → Except Mismatch Event) : Variant m ν Event :=
  .record name (format.record {
    title := "struct variant ExecutionEvent::" ++ name
    entries
    blank := {}
    finish })

def variants : List (Variant m ν Event) :=
  let id := executionIdEntry format
  let name := nameEntry format
  [ variant format "WorkflowStarted" [id, detailEntry format "workflow_id"] fun parts => do
      return .workflowStarted (← need "execution_id" parts.executionId)
        (← need "workflow_id" parts.detail),
    variant format "InvocationStarted" [id, name, inputsEntry format] fun parts => do
      return .invocationStarted (← need "execution_id" parts.executionId) (← need "name" parts.name)
        (← need "inputs" parts.inputs),
    variant format "InvocationCompleted" [id, name, detailEntry format "output"] fun parts => do
      return .invocationCompleted (← need "execution_id" parts.executionId)
        (← need "name" parts.name) (← need "output" parts.detail),
    variant format "InvocationFailed" [id, name, detailEntry format "error"] fun parts => do
      return .invocationFailed (← need "execution_id" parts.executionId) (← need "name" parts.name)
        (← need "error" parts.detail),
    variant format "WorkflowCompleted" [id] fun parts => do
      return .workflowCompleted (← need "execution_id" parts.executionId),
    variant format "WorkflowFailed" [id, detailEntry format "error"] fun parts => do
      return .workflowFailed (← need "execution_id" parts.executionId)
        (← need "error" parts.detail) ]

end Records

def ofJson (text : String) : Except String Event :=
  Json.ofText (Cursor.variant (variants Json.format)) text

/-- Reads an event that is a JSON value already; what is wrong with it has no place. -/
def ofValue (value : Value) : Except String Event :=
  (Value.readVariant (variants Value.format) value).mapError (·.cause.message)

end FlowTree.Event

import FlowTree.Failure
import FlowTree.Json.Value

/-! Events: what a run tells an observer while it goes on. -/

set_option autoImplicit false

namespace FlowTree

inductive Event where
  | workflowStarted (executionId workflowId : String)
  | invocationStarted (executionId name : String) (inputs : List String)
  | invocationCompleted (executionId name output : String)
  | invocationFailed (executionId name error : String)
  | workflowCompleted (executionId : String)
  | workflowFailed (executionId error : String)
  deriving DecidableEq

namespace Event

open Json (Value)

def parts : Event → String × List (String × Value)
  | .workflowStarted id workflowId =>
    ("WorkflowStarted", [("execution_id", .text id), ("workflow_id", .text workflowId)])
  | .invocationStarted id name inputs => ("InvocationStarted",
    [("execution_id", .text id), ("name", .text name), ("inputs", Value.texts inputs)])
  | .invocationCompleted id name output => ("InvocationCompleted",
    [("execution_id", .text id), ("name", .text name), ("output", .text output)])
  | .invocationFailed id name error => ("InvocationFailed",
    [("execution_id", .text id), ("name", .text name), ("error", .text error)])
  | .workflowCompleted id => ("WorkflowCompleted", [("execution_id", .text id)])
  | .workflowFailed id error =>
    ("WorkflowFailed", [("execution_id", .text id), ("error", .text error)])

def toJson (event : Event) : Value :=
  .object [(event.parts.1, .object event.parts.2)]

end Event

end FlowTree

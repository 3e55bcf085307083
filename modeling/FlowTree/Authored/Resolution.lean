import FlowTree.Authored
import FlowTree.Text.Blank
import FlowTree.Workflow

/-! Resolution turns an authored workflow into an executable one, or names the first statement, a
statement before its parts and parts in list order, that cannot be resolved. -/

set_option autoImplicit false

namespace FlowTree.Authored

inductive PathStep where
  | sequence (index : Nat)
  | parallel (index : Nat)
  deriving DecidableEq

def PathStep.text : PathStep → String
  | .sequence index => ".sequence[" ++ Text.decimal index ++ "]"
  | .parallel index => ".parallel[" ++ Text.decimal index ++ "]"

abbrev Path := List PathStep

def Path.text (path : Path) : String :=
  "root" ++ String.join (path.map PathStep.text)

inductive Offence where
  /-- More than one entry of the statement at the path is set. -/
  | ambiguous (path : Path)
  /-- The call at the path has no name but white space. -/
  | nameless (path : Path)
  deriving DecidableEq

namespace Offence

def place : Offence → String
  | .ambiguous path => path.text
  | .nameless path => path.text ++ ".invocation"

def message : Offence → String
  | .ambiguous path =>
    "statement at '" ++ path.text ++ "' sets more than one of invocation, sequence, parallel"
  | .nameless path => "invocation at '" ++ path.text ++ ".invocation' has no name"

end Offence

def Invocation.resolve (path : Path) (call : Invocation) : Except Offence FlowTree.Invocation :=
  if Text.trim call.name = "" then .error (.nameless path)
  else .ok {
    name := call.name
    arguments := call.arguments
    result := call.result.filter (· ≠ "")
    timeout := call.timeoutMs.map Duration.ofMillis }

mutual

def Statement.resolve (path : Path) : Statement → Except Offence FlowTree.Statement
  | ⟨none, none, none⟩ => .ok .noop
  | ⟨some call, none, none⟩ => (call.resolve path).map .invocation
  | ⟨none, some elements, none⟩ =>
    (resolveParts (fun i => path ++ [.sequence i]) 0 elements).map .sequence
  | ⟨none, none, some branches⟩ =>
    (resolveParts (fun i => path ++ [.parallel i]) 0 branches).map .parallel
  | ⟨_, _, _⟩ => .error (.ambiguous path)

/-- Resolves parts in order, up to the first offence; the first part has the given index. -/
def Statement.resolveParts (place : Nat → Path) (index : Nat) :
    List Statement → Except Offence (List FlowTree.Statement)
  | [] => .ok []
  | s :: rest => do
    let first ← Statement.resolve (place index) s
    let others ← Statement.resolveParts place (index + 1) rest
    return first :: others

end

/-- The id and the name have defaults; the name's default is the id. -/
def Workflow.resolve (workflow : Workflow) : Except Offence FlowTree.Workflow := do
  let root ← workflow.root.resolve []
  let id := workflow.workflowId.getD FlowTree.Workflow.defaultId
  return { id, name := workflow.name.getD id, seed := workflow.seed, root }

end FlowTree.Authored

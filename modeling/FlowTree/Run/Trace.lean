import FlowTree.Failure

/-! The trace of a run: what happens, in order, and where in the tree. -/

set_option autoImplicit false

namespace FlowTree

abbrev Position := List Nat

inductive Happening where
  | workflowStarted (id name : String) (seeds : Nat)
  /-- A call goes out. -/
  | started (place : Position) (name : String) (inputs : List String) (timeout : Duration)
  | completed (place : Position) (name : String) (result : Option String) (output : String)
  | failed (place : Position) (name : String) (error : CallError)
  /-- A call ends because its scope is cancelled: it is abandoned in flight, or its output comes too
  late. -/
  | cancelled (place : Position) (name : String) (abandoned : Bool)
  /-- A call does not go out because its scope is cancelled. -/
  | skipped (place : Position) (name : String)
  /-- The first failure of a block, which cancels its other branches. -/
  | branchFailed (place : Position) (failure : Failure) (remaining : Nat)
  /-- A later failure of a block that reports the first one only. -/
  | discarded (place : Position) (failure : Failure)
  | workflowCompleted
  | workflowFailed (failure : Failure)
  deriving DecidableEq

abbrev Trace := List Happening

namespace Trace

structure Sent where
  name : String
  inputs : List String
  timeout : Duration
  deriving DecidableEq

def calls (trace : Trace) : List Sent :=
  trace.filterMap fun
    | .started _ name inputs timeout => some ⟨name, inputs, timeout⟩
    | _ => none

def abandoned (trace : Trace) : List String :=
  trace.filterMap fun
    | .cancelled _ name true => some name
    | _ => none

end Trace

end FlowTree

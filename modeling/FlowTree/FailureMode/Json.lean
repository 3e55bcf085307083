import FlowTree.Failure
import FlowTree.Json.Variant

/-! Failure modes in JSON. -/

set_option autoImplicit false

namespace FlowTree.FailureMode

def name : FailureMode → String
  | .firstObserved => "first_observed"
  | .aggregate => "aggregate"

def description : FailureMode → String
  | .firstObserved => "FirstObserved"
  | .aggregate => "Aggregate"

def variants {m : Type → Type} {ν : Type} : List (Variant m ν FailureMode) :=
  [.firstObserved, .aggregate].map fun mode => .bare mode.name mode

def ofJson (text : String) : Except String FailureMode :=
  Json.ofText (Json.Cursor.variant variants) text

end FlowTree.FailureMode

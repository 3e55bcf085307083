import FlowTree.Failure
import FlowTree.Text.Decimal

/-! Log entries: a level, a message and named fields. -/

set_option autoImplicit false

namespace FlowTree

inductive Level where
  | debug | info | warn | error
  deriving DecidableEq

def Level.name : Level → String
  | .debug => "debug"
  | .info => "info"
  | .warn => "warn"
  | .error => "error"

structure LogEntry where
  level : Level
  message : String
  fields : List (String × String) := []
  deriving DecidableEq

end FlowTree

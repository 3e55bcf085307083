import FlowTree.Statement
import FlowTree.Store

/-! A workflow that is ready to run: its names, its initial variables and its tree. -/

set_option autoImplicit false

namespace FlowTree

structure Workflow where
  id : String
  name : String
  /-- What the store of every run starts with. -/
  seed : Store
  root : Statement
  deriving DecidableEq

namespace Workflow

def defaultId : String := "workflow"

def ofTree (seed : Store) (root : Statement) : Workflow :=
  { id := defaultId, name := defaultId, seed, root }

end Workflow

end FlowTree

import FlowTree.NameMap

/-! The store of a run: variables by name. -/

set_option autoImplicit false

namespace FlowTree

abbrev Store := NameMap String

namespace Store

/-- One value per name, in order; a name that is missing has the empty text. -/
def resolve (store : Store) (names : List String) : List String :=
  names.map fun name => (store.get? name).getD ""

end Store

end FlowTree

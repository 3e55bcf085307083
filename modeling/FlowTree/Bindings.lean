import FlowTree.Store

/-! Stores that are shared through handles.

A store can be changed through any of its handles, and shows the change through all of them. A store
that is made from a source map copies it. -/

set_option autoImplicit false

namespace FlowTree

structure Bindings where
  /-- The map that new stores are copied from. -/
  source : Store
  /-- The stores, in the order they were made. -/
  stores : List Store := []
  /-- For each handle the place of its store in that list. -/
  handles : List Nat := []

namespace Bindings

/-- The store behind a handle; a handle that was not made shows an empty one. -/
def store (b : Bindings) (handle : Nat) : Store :=
  (b.handles[handle]? >>= fun place => b.stores[place]?).getD NameMap.empty

def make (b : Bindings) (store : Store) : Bindings × Nat :=
  ({ b with stores := b.stores ++ [store], handles := b.handles ++ [b.stores.length] },
    b.handles.length)

def share (b : Bindings) (handle : Nat) : Bindings × Nat :=
  ({ b with handles := b.handles ++ [b.handles.getD handle b.stores.length] }, b.handles.length)

def insert (b : Bindings) (handle : Nat) (name value : String) : Bindings :=
  match b.handles[handle]? with
  | some place => { b with stores := b.stores.set place ((b.store handle).insert name value) }
  | none => b

def ofSource (source : Store) : Bindings :=
  (make { source } source).1

inductive Operation where
  | get (handle : Nat) (name : String)
  | insert (handle : Nat) (name value : String)
  | resolve (handle : Nat) (names : List String)
  | snapshot (handle : Nat)
  | size (handle : Nat)
  | isEmpty (handle : Nat)
  | share (handle : Nat)
  | makeEmpty
  | makeFromSource
  | setSource (name value : String)
  | showSource

inductive Reply where
  | value (value : Option String)
  | store (store : Store)
  | values (values : List String)
  | size (size : Nat)
  | flag (b : Bool)
  | handle (handle : Nat)
  deriving DecidableEq

def step (b : Bindings) : Operation → Bindings × Reply
  | .get handle name => (b, .value ((b.store handle).get? name))
  | .insert handle name value =>
    let b := b.insert handle name value
    (b, .store (b.store handle))
  | .resolve handle names => (b, .values ((b.store handle).resolve names))
  | .snapshot handle => (b, .store (b.store handle))
  | .size handle => (b, .size (b.store handle).size)
  | .isEmpty handle => (b, .flag ((b.store handle).size = 0))
  | .share handle =>
    let (b, shared) := b.share handle
    (b, .handle shared)
  | .makeEmpty =>
    let (b, made) := b.make NameMap.empty
    (b, .handle made)
  | .makeFromSource =>
    let (b, made) := b.make b.source
    (b, .handle made)
  | .setSource name value =>
    let b := { b with source := b.source.insert name value }
    (b, .store b.source)
  | .showSource => (b, .store b.source)

def run (b : Bindings) : List Operation → List Reply
  | [] => []
  | operation :: rest =>
    let (b, reply) := b.step operation
    reply :: run b rest

end Bindings

end FlowTree

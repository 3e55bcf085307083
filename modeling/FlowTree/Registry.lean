import FlowTree.Run.Alone
import FlowTree.Text.Quoted

/-! Registries of units of work.

A registry knows its units by name. A copy of a registry starts with the same units and counts its
calls together with them, but what is registered later in one is not seen in the other. -/

set_option autoImplicit false

namespace FlowTree

structure Shared where
  work : Work
  calls : Nat := 0
  deriving DecidableEq

structure Registries where
  /-- Every unit that has been registered, in order. -/
  units : List Shared := []
  /-- For each registry the places of its units in that list. -/
  registries : List (NameMap Nat) := []
  /-- Milliseconds since the start. -/
  clock : Nat := 0

namespace Registries

/-- The units of a registry by name; a registry that was not made has none. -/
def registry (r : Registries) (handle : Nat) : NameMap Nat :=
  r.registries.getD handle NameMap.empty

def names (r : Registries) (handle : Nat) : List String :=
  (r.registry handle).toList.map (·.1)

def contains (r : Registries) (handle : Nat) (name : String) : Bool :=
  ((r.registry handle).get? name).isSome

def description (r : Registries) (handle : Nat) : String :=
  "Registry \x7b handlers: " ++ Text.quotedList (r.names handle) ++ " \x7d"

def single : Registries where
  registries := [NameMap.empty]

def register (r : Registries) (handle : Nat) (name : String) (work : Work) : Registries :=
  { r with
    units := r.units ++ [⟨work, 0⟩]
    registries := r.registries.set handle ((r.registry handle).insert name r.units.length) }

def builtin : Registries :=
  Builtin.all.foldl (fun r unit => r.register 0 unit.name (.builtin unit)) single

def copy (r : Registries) (handle : Nat) : Registries × Nat :=
  ({ r with registries := r.registries ++ [r.registry handle] }, r.registries.length)

def invoke (r : Registries) (handle : Nat) (name : String) (inputs : List String)
    (timeout : Duration) : Registries × Answer :=
  match (r.registry handle).get? name >>= fun place => (r.units[place]?).map (place, ·) with
  | none => (r, .error (.notRegistered name))
  | some (place, unit) =>
    let (clock, answer) :=
      Call.alone name inputs timeout (unit.work.script unit.calls inputs) r.clock
    ({ r with units := r.units.set place { unit with calls := unit.calls + 1 }, clock }, answer)

inductive Operation where
  | register (handle : Nat) (name : String) (work : Work)
  | contains (handle : Nat) (name : String)
  | names (handle : Nat)
  | describe (handle : Nat)
  | copy (handle : Nat)
  | invoke (handle : Nat) (name : String) (inputs : List String) (timeout : Duration)

inductive Reply where
  | names (names : List String)
  | flag (b : Bool)
  | description (text : String)
  | handle (handle : Nat)
  | call (answer : Answer) (clock : Nat)

def step (r : Registries) : Operation → Registries × Reply
  | .register handle name work =>
    let r := r.register handle name work
    (r, .names (r.names handle))
  | .contains handle name => (r, .flag (r.contains handle name))
  | .names handle => (r, .names (r.names handle))
  | .describe handle => (r, .description (r.description handle))
  | .copy handle =>
    let (r, copied) := r.copy handle
    (r, .handle copied)
  | .invoke handle name inputs timeout =>
    let (r, answer) := r.invoke handle name inputs timeout
    (r, .call answer r.clock)

def run (r : Registries) : List Operation → List Reply
  | [] => []
  | operation :: rest =>
    let (r, reply) := r.step operation
    reply :: run r rest

end Registries

end FlowTree

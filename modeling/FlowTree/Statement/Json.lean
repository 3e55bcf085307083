import FlowTree.Json.Plain
import FlowTree.Workflow

/-! Executable workflows in JSON. A statement is an object whose member `type` names its kind, next
to the members of that kind.

A reader has to find the kind before it can read the other members, so it takes a statement out of its
text first. Only faults up to there have a place. -/

set_option autoImplicit false

namespace FlowTree

open Json (Value Fault Cursor Node Field)

namespace Duration

def toJson (d : Duration) : Value :=
  .object [("secs", .natural d.secs), ("nanos", .natural d.subsecNanos)]

/-- Seconds and nanoseconds; nanoseconds of a second or more carry over. -/
def record : Record (Except Fault) Value (Option Nat × Option Nat) Duration where
  title := "struct Duration"
  entries := [
    { name := "secs", given := (·.1.isSome)
      read := fun value parts => return (some (← value.readNatural Text.wordBound "u64"), parts.2) },
    { name := "nanos", given := (·.2.isSome)
      read := fun value parts => return (parts.1, some (← value.readNatural (Nat.pow 2 32) "u32")) }]
  blank := (none, none)
  finish
    | (none, _) => .error (.missingField "secs")
    | (_, none) => .error (.missingField "nanos")
    | (some secs, some nanos) =>
      match ofParts? secs nanos with
      | some d => .ok d
      | none => .error .durationOverflow
  closed := true
  plainTitle := true

end Duration

namespace Invocation

def toJson (call : Invocation) : Value :=
  .object [("type", .text "invocation"), ("name", .text call.name),
    ("arguments", Value.texts call.arguments), ("result", Value.option .text call.result),
    ("timeout", Value.option Duration.toJson call.timeout)]

structure Parts where
  name : Option String := none
  arguments : Option (List String) := none
  result : Option (Option String) := none
  timeout : Option (Option Duration) := none

def record : Record (Except Fault) Value Parts Invocation where
  title := "struct Invocation"
  entries := [
    { name := "name", given := (·.name.isSome)
      read := fun value parts => return { parts with name := some (← value.readText) } },
    { name := "arguments", given := (·.arguments.isSome)
      read := fun value parts =>
        return { parts with arguments := some (← value.readList Value.readText) } },
    { name := "result", given := (·.result.isSome)
      read := fun value parts =>
        return { parts with result := some (← value.readOptional Value.readText) } },
    { name := "timeout", given := (·.timeout.isSome)
      read := fun value parts => return { parts with
        timeout := some (← value.readOptional (Value.readRecord Duration.record)) } }]
  blank := {}
  finish parts :=
    match parts.name, parts.arguments with
    | none, _ => .error (.missingField "name")
    | _, none => .error (.missingField "arguments")
    | some name, some arguments => .ok {
        name, arguments
        result := parts.result.getD none
        timeout := parts.timeout.getD none }

end Invocation

namespace Statement

mutual

def toJson : Statement → Value
  | .invocation call => call.toJson
  | .sequence elements =>
    .object [("type", .text "sequence"), ("elements", .list (partsToJson elements))]
  | .parallel branches =>
    .object [("type", .text "parallel"), ("branches", .list (partsToJson branches))]
  | .noop => .object [("type", .text "noop")]

def partsToJson : List Statement → List Value
  | [] => []
  | s :: rest => toJson s :: partsToJson rest

end

inductive Kind where
  | invocation | sequence | parallel | noop
  deriving DecidableEq

namespace Kind

def all : List Kind := [.invocation, .sequence, .parallel, .noop]

def name : Kind → String
  | .invocation => "invocation"
  | .sequence => "sequence"
  | .parallel => "parallel"
  | .noop => "noop"

def ofName (name : String) : Except Mismatch Kind :=
  match all.find? (·.name = name) with
  | some kind => .ok kind
  | none => .error (.unknownVariant name (all.map Kind.name))

def ofValue : Value → Except Fault Kind
  | .text name => (ofName name).mapError fun mismatch => { cause := .mismatch mismatch }
  | .number (.natural n) =>
    match all[n]? with
    | some kind => .ok kind
    | none => Value.fault (.value (.integer n) "variant index 0 <= i < 4")
  | value => value.unlike "variant identifier"

def ofNode : Node → Except Fault Kind
  | .text _ stop (.ok name) =>
    (ofName name).mapError fun mismatch => ⟨.mismatch mismatch, some stop⟩
  | node => .error (node.unlike "variant identifier")

end Kind

def title : String := "internally tagged enum Statement"

/-- The parts of a sequence or a parallel block, which may not be left out. -/
def partsRecord (title name : String) (part : Value → Except Fault Statement) :
    Record (Except Fault) Value (Option (List Statement)) (List Statement) where
  title
  entries := [
    { name, given := (·.isSome), read := fun value _ => return some (← value.readList part) }]
  blank := none
  finish
    | some parts => .ok parts
    | none => .error (.missingField name)

def ofContent (part : Value → Except Fault Statement) (kind : Kind) (content : Value) :
    Except Fault Statement :=
  match kind with
  | .invocation => return .invocation (← content.readRecord Invocation.record)
  | .sequence =>
    return .sequence (← content.readRecord (partsRecord "struct Sequence" "elements" part))
  | .parallel =>
    return .parallel (← content.readRecord (partsRecord "struct Parallel" "branches" part))
  | .noop =>
    match content with
    -- Members of an object are ignored, but items of a list are too many.
    | .list (item :: items) => Value.tooLong 0 (item :: items).length
    | _ => .ok .noop

def splitMembers : List (String × Value) → Option Kind → Except Fault (Kind × List (String × Value))
  | [], none => Value.fault (.missingField "type")
  | [], some kind => .ok (kind, [])
  | (name, value) :: rest, kind? =>
    if name = "type" then
      match kind? with
      | some _ => Value.fault (.duplicateField "type")
      | none => do splitMembers rest (some (← Kind.ofValue value))
    else do
      let (kind, others) ← splitMembers rest kind?
      return (kind, (name, value) :: others)

/-- Parts the kind of a statement from its content. A list starts with the kind. -/
def splitValue : Value → Except Fault (Kind × Value)
  | .object members => do
    let (kind, others) ← splitMembers members none
    return (kind, .object others)
  | .list [] => Value.fault (.missingField "type")
  | .list (first :: rest) => return (← Kind.ofValue first, .list rest)
  | value => value.unlike title

def ofValue : (depth : Nat) → Value → Except Fault Statement
  | 0, _ => .error { cause := .nestingTooDeep }
  | depth + 1, value => do
    let (kind, content) ← splitValue value
    ofContent (ofValue depth) kind content

def splitFields (depth : Nat) :
    List Field → Option Kind → Except Fault (Option Kind × List (String × Value))
  | [], kind? => .ok (kind?, [])
  | field :: rest, kind? => do
    let name ← field.key
    if name = "type" then
      match kind? with
      | some _ => .error ⟨.mismatch (.duplicateField "type"), some field.refused⟩
      | none => splitFields depth rest (some (← Kind.ofNode field.value))
    else
      let value ← field.value.toValue depth
      let (kind?, others) ← splitFields depth rest kind?
      return (kind?, (name, value) :: others)

def splitNode (cursor : Cursor) : Except Fault (Kind × Value) :=
  let missing (stop : Nat) : Fault := ⟨.mismatch (.missingField "type"), some stop⟩
  match cursor.node with
  | .object _ fields ending => do
    let depth ← cursor.enter
    let (kind?, others) ← splitFields depth fields none
    let stop ← ending.wantedObject
    match kind? with
    | some kind => return (kind, .object others)
    | none => .error (missing stop)
  | .list _ [] ending => do
    let _ ← cursor.enter
    let stop ← ending.wantedList
    .error (missing stop)
  | .list _ (first :: rest) ending => do
    let depth ← cursor.enter
    let kind ← Kind.ofNode first
    let values ← Json.toValues depth rest
    let _ ← ending.wantedList
    return (kind, .list values)
  | node => .error (node.unlike title)

def nestingLimit : Nat := 128

def read (cursor : Cursor) : Except Fault Statement := do
  let (kind, content) ← splitNode cursor
  ofContent (ofValue nestingLimit) kind content

def ofJson (text : String) : Except String Statement :=
  Json.ofText read text

end Statement

namespace Workflow

def toJson (workflow : Workflow) : Value :=
  .object [("workflow_id", .text workflow.id), ("name", .text workflow.name),
    ("variables", Value.ofStore workflow.seed), ("root", workflow.root.toJson)]

structure Parts where
  id : Option String := none
  name : Option String := none
  seed : Option Store := none
  root : Option Statement := none

def record : Record (Except Fault) Cursor Parts Workflow where
  title := "struct Workflow"
  entries := [
    { name := "workflow_id", given := (·.id.isSome)
      read := fun node parts => return { parts with id := some (← node.text) } },
    { name := "name", given := (·.name.isSome)
      read := fun node parts => return { parts with name := some (← node.text) } },
    { name := "variables", given := (·.seed.isSome)
      read := fun node parts => return { parts with seed := some (← node.store) } },
    { name := "root", given := (·.root.isSome)
      read := fun node parts => return { parts with root := some (← Statement.read node) } }]
  blank := {}
  finish parts :=
    match parts.id, parts.name, parts.seed, parts.root with
    | none, _, _, _ => .error (.missingField "workflow_id")
    | _, none, _, _ => .error (.missingField "name")
    | _, _, none, _ => .error (.missingField "variables")
    | _, _, _, none => .error (.missingField "root")
    | some id, some name, some seed, some root => .ok { id, name, seed, root }

def ofJson (text : String) : Except String Workflow :=
  Json.ofText (Cursor.record record) text

end Workflow

end FlowTree

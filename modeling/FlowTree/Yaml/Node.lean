import FlowTree.Yaml.Event

/-! A YAML document as a tree.

A document that breaks off has a `cut` where the next node should be, and nothing after it. Anchors
are numbered; an alias stands for the node that was last given its number. A name that is used again
gets a new number, which is the count of names so far, so two names may come to share one. -/

set_option autoImplicit false

namespace FlowTree.Yaml

inductive Node where
  | alias (mark : Mark) (number : Nat)
  | scalar (mark : Mark) (scalar : Scalar)
  | sequence (mark : Mark) (items : List Node)
  | mapping (mark : Mark) (fields : List (Node × Node))
  /-- The only node of a text without documents. -/
  | void
  | cut

def Node.mark : Node → Mark
  | .alias mark _ | .scalar mark _ | .sequence mark _ | .mapping mark _ => mark
  | .void | .cut => {}

structure Document where
  root : Node
  /-- The number of events. -/
  size : Nat
  /-- For each number of an anchor the index of the event that starts its node, newest first. -/
  starts : List (Nat × Nat)
  /-- The nodes with anchors, by the indices of their events. -/
  anchored : List (Nat × Node)
  /-- Why the document breaks off. -/
  fault : Option Fault
  /-- Whether anything follows the document. -/
  more : Bool

def Document.target? (document : Document) (number : Nat) : Option Node := do
  let index ← document.starts.lookup number
  document.anchored.lookup index

namespace Document

/-- A collection around the current place, with its parts newest first, and the index of its event
if it has an anchor. A mapping may have a key that waits for its value. -/
inductive Frame where
  | sequence (mark : Mark) (index : Option Nat) (items : List Node)
  | mapping (mark : Mark) (index : Option Nat) (fields : List (Node × Node)) (key : Option Node)

/-- A document of which only a part has been read. -/
structure Draft where
  root : Option Node := none
  frames : List Frame := []
  size : Nat := 0
  /-- The number of each name of an anchor. -/
  names : List (String × Nat) := []
  starts : List (Nat × Nat) := []
  anchored : List (Nat × Node) := []

namespace Draft

def name (draft : Draft) (anchor : Option String) : Draft × Option Nat :=
  match anchor with
  | none => (draft, none)
  | some name =>
    -- The names so far, not the anchors so far, are counted.
    let number := draft.names.length
    ({ draft with
      names := (name, number) :: draft.names.filter (·.1 ≠ name)
      starts := (number, draft.size) :: draft.starts }, some draft.size)

def place (draft : Draft) (index : Option Nat) (node : Node) : Draft :=
  let anchored := match index with
    | some index => (index, node) :: draft.anchored
    | none => draft.anchored
  let (root, frames) := match draft.frames with
    | [] => (some node, [])
    | .sequence mark index items :: frames =>
      (draft.root, .sequence mark index (node :: items) :: frames)
    | .mapping mark index fields none :: frames =>
      (draft.root, .mapping mark index fields (some node) :: frames)
    | .mapping mark index fields (some key) :: frames =>
      (draft.root, .mapping mark index ((key, node) :: fields) none :: frames)
  { draft with root, frames, anchored }

def close (draft : Draft) : Draft :=
  match draft.frames with
  | [] => draft
  | .sequence mark index items :: frames =>
    { draft with frames }.place index (.sequence mark items.reverse)
  | .mapping mark index fields _ :: frames =>
    { draft with frames }.place index (.mapping mark fields.reverse)

def cutFrames (node : Node) (anchored : List (Nat × Node)) : List Frame → Node × List (Nat × Node)
  | [] => (node, anchored)
  | frame :: frames =>
    let (node, index) : Node × Option Nat := match frame with
      | .sequence mark index items => (.sequence mark (node :: items).reverse, index)
      | .mapping mark index fields none => (.mapping mark ((node, .cut) :: fields).reverse, index)
      | .mapping mark index fields (some key) =>
        (.mapping mark ((key, node) :: fields).reverse, index)
    cutFrames node ((index.map (·, node)).toList ++ anchored) frames

def document (draft : Draft) (fault : Option Fault) (more : Bool) : Document :=
  let (root, anchored) := match draft.root with
    | some root => (root, draft.anchored)
    | none => cutFrames .cut draft.anchored draft.frames
  { root, anchored, size := draft.size, starts := draft.starts, fault, more }

/-- Takes the events in their order. The fault of the stream comes after them, and an alias for a
name that is not known comes before it. -/
def build (stream : Stream) (draft : Draft) : List (Mark × Event) → Document
  | [] => draft.document stream.fault stream.more
  | (mark, event) :: rest =>
    let taken (draft : Draft) : Draft := { draft with size := draft.size + 1 }
    match event with
    | .alias name =>
      match draft.names.lookup name with
      | some number => build stream (taken (draft.place none (.alias mark number))) rest
      | none => draft.document (some (.unknownAnchor mark)) true
    | .scalar anchor scalar =>
      let (draft, index) := draft.name anchor
      build stream (taken (draft.place index (.scalar mark scalar))) rest
    | .sequenceStart anchor =>
      let (draft, index) := draft.name anchor
      build stream (taken { draft with frames := .sequence mark index [] :: draft.frames }) rest
    | .mappingStart anchor =>
      let (draft, index) := draft.name anchor
      build stream (taken { draft with frames := .mapping mark index [] none :: draft.frames }) rest
    | .sequenceEnd => build stream (taken draft.close) rest
    | .mappingEnd => build stream (taken draft.close) rest

end Draft

/-- The first document of a text. A text without documents is a document without a node. -/
def ofText (text : String) : Document :=
  let stream := Stream.ofText text
  match stream.events, stream.fault with
  | [], none => Draft.document { root := some .void, size := 1 } none false
  | events, _ => Draft.build stream {} events

end Document

mutual

def Node.isCut : Node → Bool
  | .sequence _ items => anyCut items
  | .mapping _ fields => anyFieldCut fields
  | .cut => true
  | .alias _ _ | .scalar _ _ | .void => false

def anyCut : List Node → Bool
  | [] => false
  | node :: rest => node.isCut || anyCut rest

def anyFieldCut : List (Node × Node) → Bool
  | [] => false
  | (key, value) :: rest => key.isCut || value.isCut || anyFieldCut rest

end

end FlowTree.Yaml

import FlowTree.Yaml.Layout

/-! The events of a YAML document: its scalars and aliases, and the starts and ends of its
collections, in the order of the text. -/

set_option autoImplicit false

namespace FlowTree.Yaml

structure Scalar where
  text : String
  style : Style
  tag : Option String := none

inductive Event where
  | alias (name : String)
  | scalar (anchor : Option String) (scalar : Scalar)
  | sequenceStart (anchor : Option String)
  | sequenceEnd
  | mappingStart (anchor : Option String)
  | mappingEnd

/-- What the rest of a document has to hold, outermost part last. -/
inductive Goal where
  /-- The content of a document after its marker, if there is any. -/
  | content
  | node
  | blockEntries (start : Mark)
  /-- The entries of a sequence that is not indented more than the mapping around it. -/
  | levelEntries
  | blockKeys (start : Mark)
  | blockValue (start : Mark)
  | flowEntries (start : Mark) (first : Bool)
  /-- The parts of a single pair that stands in a flow sequence without braces. -/
  | pairKey | pairValue | pairEnd
  | flowKeys (start : Mark) (first : Bool)
  | flowValue (start : Mark)
  /-- The value of a key that has none. -/
  | flowNoValue (start : Mark)

abbrev Handles := List (String × String)

structure Step where
  mark : Mark
  event : Event
  goals : List Goal
  tokens : Tokens

def Step.empty (mark : Mark) (goals : List Goal) (tokens : Tokens) : Step :=
  ⟨mark, .scalar none ⟨"", .plain, none⟩, goals, tokens⟩

structure Properties where
  anchor : Option String := none
  /-- The handle and the rest of the tag, with its place. -/
  tag : Option (String × String × Mark) := none
  tokens : Tokens

def Properties.read (tokens : Tokens) : Except Fault Properties := do
  let first ← tokens.peek
  match first.token with
  | .anchor name =>
    let second ← tokens.skip.peek
    match second.token with
    | .tag handle suffix =>
      return { anchor := name, tag := (handle, suffix, second.start), tokens := tokens.skip.skip }
    | _ => return { anchor := name, tokens := tokens.skip }
  | .tag handle suffix =>
    let tag := (handle, suffix, first.start)
    let second ← tokens.skip.peek
    match second.token with
    | .anchor name => return { anchor := name, tag, tokens := tokens.skip.skip }
    | _ => return { tag, tokens := tokens.skip }
  | _ => return { tokens }

def Properties.fullTag (properties : Properties) (handles : Handles) (start : Mark) :
    Except Fault (Option String) :=
  match properties.tag with
  | none => .ok none
  | some (handle, suffix, mark) =>
    if handle = "" then .ok (some suffix)
    else match handles.lookup handle with
      | some text => .ok (some (text ++ suffix))
      | none => malformed .tagHandleUndefined mark .node start

/-- Reads a node. Block collections are read if `block` is set, and sequences that are not indented
if `level` is. -/
def Step.node (handles : Handles) (block level : Bool) (goals : List Goal) (tokens : Tokens) :
    Except Fault Step := do
  let first ← tokens.peek
  let start := first.start
  match first.token with
  | .alias name => return ⟨start, .alias name, goals, tokens.skip⟩
  | _ =>
    let properties ← Properties.read tokens
    let anchor := properties.anchor
    let tag ← properties.fullTag handles start
    let tokens := properties.tokens
    let next ← tokens.peek
    match next.token, block, level with
    | .blockEntry, _, true => return ⟨start, .sequenceStart anchor, .levelEntries :: goals, tokens⟩
    | .scalar text style, _, _ =>
      let tag := if tag = some "!" then none else tag
      return ⟨start, .scalar anchor ⟨text, style, tag⟩, goals, tokens.skip⟩
    | .flowSequenceStart, _, _ =>
      return ⟨start, .sequenceStart anchor, .flowEntries next.start true :: goals, tokens.skip⟩
    | .flowMappingStart, _, _ =>
      return ⟨start, .mappingStart anchor, .flowKeys next.start true :: goals, tokens.skip⟩
    | .blockSequenceStart, true, _ =>
      return ⟨start, .sequenceStart anchor, .blockEntries next.start :: goals, tokens.skip⟩
    | .blockMappingStart, true, _ =>
      return ⟨start, .mappingStart anchor, .blockKeys next.start :: goals, tokens.skip⟩
    | _, _, _ =>
      -- Properties make a node of their own when nothing follows them.
      if anchor.isSome || tag.isSome then
        return ⟨start, .scalar anchor ⟨"", .plain, tag⟩, goals, tokens⟩
      else malformed .nodeMissing next.start (if block then .blockNode else .flowNode) start

def Token.endsDocument : Token → Bool
  | .versionDirective _ _ | .tagDirective _ _ | .documentStart | .documentEnd | .finish => true
  | _ => false

/-- Reads a node, unless the next token is among those that show that it is not written. -/
def Step.nodeUnless (handles : Handles) (absent : List Token) (level : Bool) (mark : Mark)
    (goals : List Goal) (tokens : Tokens) : Except Fault Step := do
  let next ← tokens.peek
  if absent.contains next.token then return .empty mark goals tokens
  else Step.node handles true level goals tokens

/-- Reads a node of a flow collection, unless the next token shows that it is not written. -/
def Step.flowUnless (handles : Handles) (absent : List Token) (goals : List Goal)
    (tokens : Tokens) : Except Fault Step := do
  let next ← tokens.peek
  if absent.contains next.token then return .empty next.start goals tokens
  else Step.node handles false false goals tokens

def Goal.step (handles : Handles) (goal : Goal) (goals : List Goal) (tokens : Tokens) :
    Except Fault Step := do
  let next ← tokens.peek
  let rest := tokens.skip
  match goal with
  | .content =>
    if next.token.endsDocument then return .empty next.start goals tokens
    else Step.node handles true false goals tokens
  | .node => Step.node handles true false goals tokens
  | .blockEntries start =>
    match next.token with
    | .blockEntry =>
      Step.nodeUnless handles [.blockEntry, .blockEnd] false next.stop (goal :: goals) rest
    | .blockEnd => return ⟨next.start, .sequenceEnd, goals, rest⟩
    | _ => malformed .dashMissing next.start .blockSequence start
  | .levelEntries =>
    match next.token with
    | .blockEntry =>
      Step.nodeUnless handles [.blockEntry, .key, .value, .blockEnd] false next.stop (goal :: goals)
        rest
    | _ => return ⟨next.start, .sequenceEnd, goals, tokens⟩
  | .blockKeys start =>
    match next.token with
    | .key =>
      Step.nodeUnless handles [.key, .value, .blockEnd] true next.stop (.blockValue start :: goals)
        rest
    | .blockEnd => return ⟨next.start, .mappingEnd, goals, rest⟩
    | _ => malformed .keyMissing next.start .blockMapping start
  | .blockValue start =>
    match next.token with
    | .value =>
      Step.nodeUnless handles [.key, .value, .blockEnd] true next.stop (.blockKeys start :: goals) rest
    | _ => return .empty next.start (.blockKeys start :: goals) tokens
  | .flowEntries start first =>
    let entry (next : Placed) (tokens : Tokens) : Except Fault Step :=
      let goals := .flowEntries start false :: goals
      match next.token with
      | .key => .ok ⟨next.start, .mappingStart none, .pairKey :: goals, tokens.skip⟩
      | _ => Step.node handles false false goals tokens
    match next.token, first with
    | .flowSequenceEnd, _ => return ⟨next.start, .sequenceEnd, goals, rest⟩
    | _, true => entry next tokens
    | .flowEntry, false =>
      let after ← rest.peek
      match after.token with
      | .flowSequenceEnd => return ⟨after.start, .sequenceEnd, goals, rest.skip⟩
      | _ => entry after rest
    | _, false => malformed .flowSequenceUnended next.start .flowSequence start
  | .pairKey =>
    match next.token with
    -- A pair without a key passes over the token that shows this, so its value is not found either.
    | .value | .flowEntry | .flowSequenceEnd =>
      return .empty next.stop (.pairValue :: goals) rest
    | _ => Step.node handles false false (.pairValue :: goals) tokens
  | .pairValue =>
    match next.token with
    | .value => Step.flowUnless handles [.flowEntry, .flowSequenceEnd] (.pairEnd :: goals) rest
    | _ => return .empty next.start (.pairEnd :: goals) tokens
  | .pairEnd => return ⟨next.start, .mappingEnd, goals, tokens⟩
  | .flowKeys start first =>
    let entry (next : Placed) (tokens : Tokens) : Except Fault Step :=
      match next.token with
      | .key =>
        Step.flowUnless handles [.value, .flowEntry, .flowMappingEnd] (.flowValue start :: goals)
          tokens.skip
      | _ => Step.node handles false false (.flowNoValue start :: goals) tokens
    match next.token, first with
    | .flowMappingEnd, _ => return ⟨next.start, .mappingEnd, goals, rest⟩
    | _, true => entry next tokens
    | .flowEntry, false =>
      let after ← rest.peek
      match after.token with
      | .flowMappingEnd => return ⟨after.start, .mappingEnd, goals, rest.skip⟩
      | _ => entry after rest
    | _, false => malformed .flowMappingUnended next.start .flowMapping start
  | .flowValue start =>
    match next.token with
    | .value =>
      Step.flowUnless handles [.flowEntry, .flowMappingEnd] (.flowKeys start false :: goals) rest
    | _ => return .empty next.start (.flowKeys start false :: goals) tokens
  | .flowNoValue start => return .empty next.start (.flowKeys start false :: goals) tokens

structure Stream where
  /-- The events in their order, with their places. -/
  events : List (Mark × Event)
  /-- Why the events end before the document does. -/
  fault : Option Fault := none
  /-- Whether anything follows the document. -/
  more : Bool := false

namespace Stream

def directives (versioned : Bool) (handles : Handles) : Tokens → Except Fault (Handles × Tokens)
  | .cons first rest =>
    match first.token with
    | .versionDirective major minor =>
      let fail (problem : Problem) : Except Fault (Handles × Tokens) :=
        .error (.malformed problem first.start none)
      if versioned then fail .versionRepeated
      else if major ≠ 1 || (minor ≠ 1 && minor ≠ 2) then fail .versionUnsupported
      else directives true handles rest
    | .tagDirective handle text =>
      if (handles.lookup handle).isSome then
        .error (.malformed .tagDirectiveRepeated first.start none)
      else directives versioned ((handle, text) :: handles) rest
    | _ => .ok (handles, .cons first rest)
  | .finish mark => .ok (handles, .finish mark)
  | .broken fault => .error fault

def defaultHandles : Handles :=
  [("!", "!"), ("!!", "tag:yaml.org,2002:")]

/-- The start of the first document: its goal, the handles of its tags, and its tokens. -/
structure Opening where
  goal : Goal
  handles : Handles
  tokens : Tokens

/-- A document without directives needs no marker; a text without anything holds no document. -/
def opening (tokens : Tokens) : Except Fault (Option Opening) := do
  let first ← tokens.peek
  match first.token with
  | .finish => return none
  | .versionDirective _ _ | .tagDirective _ _ | .documentStart =>
    let (handles, tokens) ← directives false [] tokens
    let next ← tokens.peek
    match next.token with
    | .documentStart => return some ⟨.content, handles ++ defaultHandles, tokens.skip⟩
    | _ => .error (.malformed .documentStartMissing next.start none)
  | _ => return some ⟨.node, defaultHandles, tokens⟩

def followed : Tokens → Bool
  | .cons first rest => if first.token = .documentEnd then followed rest else true
  | .finish _ => false
  | .broken _ => true

def eventsFrom (handles : Handles) :
    (fuel : Nat) → List (Mark × Event) → List Goal → Tokens → Stream
  | 0, events, _, _ => { events := events.reverse }
  | _, events, [], tokens =>
    match tokens.peek with
    | .error fault => { events := events.reverse, fault }
    | .ok _ => { events := events.reverse, more := followed tokens }
  | fuel + 1, events, goal :: goals, tokens =>
    match goal.step handles goals tokens with
    | .error fault => { events := events.reverse, fault }
    | .ok step => eventsFrom handles fuel ((step.mark, step.event) :: events) step.goals step.tokens

/-- The events of the first document. Between two tokens there are at most four events, and a
document has at least one. -/
def ofTokens (tokens : Tokens) : Stream :=
  match opening tokens with
  | .error fault => { events := [], fault }
  | .ok none => { events := [] }
  | .ok (some opening) =>
    eventsFrom opening.handles (4 * tokens.size + 8) [] [opening.goal] opening.tokens

def ofText (text : String) : Stream :=
  ofTokens (.ofText text)

end Stream

end FlowTree.Yaml

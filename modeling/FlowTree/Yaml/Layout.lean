import FlowTree.Yaml.Block
import FlowTree.Yaml.Directive
import FlowTree.Yaml.Plain
import FlowTree.Yaml.Quoted

/-! From characters to tokens.

A key of a mapping is known only by the colon after it. So the start of each value that could be a
key is remembered as a candidate, and tokens are held back from that place on until the colon is met
or cannot come any more. Indentation outside flow collections opens and closes block collections. -/

set_option autoImplicit false

namespace FlowTree.Yaml

structure Candidate where
  mark : Mark
  /-- The number of tokens before it. -/
  number : Nat
  /-- Nothing but a key could stand there. -/
  required : Bool

structure Layout where
  here : Position
  /-- The candidate of the innermost flow collection, and those around it. -/
  candidate : Option Candidate := none
  outer : List (Option Candidate) := []
  /-- The columns of the open block collections, innermost first. -/
  columns : List Nat := []
  /-- Whether a key may start here. -/
  keyAllowed : Bool := true
  /-- The tokens that are held back, in their order. -/
  held : List Placed := []
  /-- The number of tokens that have been passed on. -/
  passed : Nat := 0
  /-- Whether the whole text has been read. -/
  finished : Bool := false

namespace Layout

def inFlow (layout : Layout) : Bool :=
  layout.outer ≠ []

def indent (layout : Layout) : Nat :=
  (layout.columns.head?.map (· + 1)).getD 0

def push (layout : Layout) (token : Token) (start stop : Mark) : Layout :=
  { layout with held := layout.held ++ [⟨token, start, stop⟩] }

def pushNext (layout : Layout) (token : Token) (count : Nat := 1) : Layout :=
  let after := layout.here.advance count
  { layout.push token layout.here.mark after.mark with here := after }

def candidateReach : Nat := 1024

def Candidate.stale (candidate : Candidate) (mark : Mark) : Bool :=
  candidate.mark.line < mark.line || candidate.mark.index + candidateReach < mark.index

def refresh (mark : Mark) : Option Candidate → Except Fault (Option Candidate)
  | none => .ok none
  | some candidate =>
    if !Candidate.stale candidate mark then .ok (some candidate)
    else if candidate.required then malformed .colonMissing mark .simpleKey candidate.mark
    else .ok none

def dropStale (layout : Layout) : Except Fault Layout := do
  let outer ← layout.outer.reverse.mapM (refresh layout.here.mark)
  let candidate ← refresh layout.here.mark layout.candidate
  return { layout with candidate, outer := outer.reverse }

def dropCandidate (layout : Layout) : Except Fault Layout :=
  match layout.candidate with
  | some ⟨mark, _, true⟩ => malformed .colonMissing layout.here.mark .simpleKey mark
  | _ => .ok { layout with candidate := none }

def saveCandidate (layout : Layout) : Except Fault Layout :=
  if layout.keyAllowed then do
    let column := layout.here.mark.column
    let candidate : Candidate := {
      mark := layout.here.mark
      number := layout.passed + layout.held.length
      required := !layout.inFlow && layout.columns.head? = some column }
    let layout ← layout.dropCandidate
    return { layout with candidate := some candidate }
  else .ok layout

/-- Opens a block collection at a column, if none is open there or further in. Its token is put
before the held tokens from `at?` on. -/
def openBlock (layout : Layout) (column : Nat) (token : Token) (mark : Mark)
    (before : Option Nat := none) : Layout :=
  if layout.inFlow || column < layout.indent then layout
  else
    let place := (before.map (· - layout.passed)).getD layout.held.length
    { layout with
      columns := column :: layout.columns
      held := layout.held.insertIdx place ⟨token, mark, mark⟩ }

def closeBlocks (layout : Layout) (further : Nat → Bool) : Layout :=
  if layout.inFlow then layout
  else
    let mark := layout.here.mark
    let closed := layout.columns.takeWhile further
    { layout with
      columns := layout.columns.drop closed.length
      held := layout.held ++ closed.map fun _ => ⟨.blockEnd, mark, mark⟩ }

def openFlow (layout : Layout) (token : Token) : Except Fault Layout := do
  let layout ← layout.saveCandidate
  return { layout.pushNext token with
    candidate := none
    outer := layout.candidate :: layout.outer
    keyAllowed := true }

def closeFlow (layout : Layout) (token : Token) : Except Fault Layout := do
  let layout ← layout.dropCandidate
  let inside := match layout.outer with
    -- A bracket that closes nothing is a token all the same; the parts around it show that it is wrong.
    | [] => layout
    | candidate :: outer => { layout with candidate, outer }
  return { inside.pushNext token with keyAllowed := false }

def flowEntry (layout : Layout) : Except Fault Layout := do
  let layout ← layout.dropCandidate
  return { layout.pushNext .flowEntry with keyAllowed := true }

def outOfPlace (layout : Layout) (problem : Problem) : Except Fault Layout :=
  .error (.malformed problem layout.here.mark none)

def blockEntry (layout : Layout) : Except Fault Layout :=
  if !layout.inFlow && !layout.keyAllowed then layout.outOfPlace .entryOutOfPlace
  else do
    let mark := layout.here.mark
    let layout ← (layout.openBlock mark.column .blockSequenceStart mark).dropCandidate
    return { layout.pushNext .blockEntry with keyAllowed := true }

def key (layout : Layout) : Except Fault Layout :=
  if !layout.inFlow && !layout.keyAllowed then layout.outOfPlace .keyOutOfPlace
  else do
    let mark := layout.here.mark
    let layout ← (layout.openBlock mark.column .blockMappingStart mark).dropCandidate
    return { layout.pushNext .key with keyAllowed := !layout.inFlow }

def value (layout : Layout) : Except Fault Layout :=
  match layout.candidate with
  | some candidate =>
    let mark := candidate.mark
    let place := candidate.number - layout.passed
    let layout := { layout with
      candidate := none
      held := layout.held.insertIdx place ⟨.key, mark, mark⟩ }
    -- The mapping opens at the same place, and so before its first key.
    let layout := layout.openBlock mark.column .blockMappingStart mark (some candidate.number)
    .ok { layout.pushNext .value with keyAllowed := false }
  | none =>
    if !layout.inFlow && !layout.keyAllowed then layout.outOfPlace .valueOutOfPlace
    else
      let mark := layout.here.mark
      let layout := layout.openBlock mark.column .blockMappingStart mark
      .ok { layout.pushNext .value with keyAllowed := !layout.inFlow }

def valueToken (layout : Layout) (scan : Position → Except Fault (Token × Position)) :
    Except Fault Layout := do
  let layout ← layout.saveCandidate
  let (token, after) ← scan layout.here
  return { layout.push token layout.here.mark after.mark with here := after, keyAllowed := false }

def plainScalar (layout : Layout) : Except Fault Layout := do
  let layout ← layout.saveCandidate
  let scalar ← PlainScalar.scan layout.inFlow layout.indent layout.here
  return { layout.push (.scalar scalar.text .plain) layout.here.mark scalar.stop with
    here := scalar.after
    keyAllowed := scalar.brokeLine }

def quotedScalar (layout : Layout) (single : Bool) : Except Fault Layout :=
  layout.valueToken fun here => do
    let (text, after) ← QuotedScalar.scan single here
    return (.scalar text (if single then .singleQuoted else .doubleQuoted), after)

def blockScalar (layout : Layout) (literal : Bool) : Except Fault Layout := do
  let layout ← layout.dropCandidate
  let (text, after) ← BlockScalar.scan literal layout.indent layout.here
  let token := Token.scalar text (if literal then .literal else .folded)
  return { layout.push token layout.here.mark after.mark with here := after, keyAllowed := true }

def directive (layout : Layout) : Except Fault Layout := do
  let layout ← (layout.closeBlocks fun _ => true).dropCandidate
  let (placed, after) ← Directive.scan layout.here
  return { layout with held := layout.held ++ [placed], here := after, keyAllowed := false }

def marker (layout : Layout) (token : Token) : Except Fault Layout := do
  let layout ← (layout.closeBlocks fun _ => true).dropCandidate
  return { layout.pushNext token 3 with keyAllowed := false }

def finish (layout : Layout) : Except Fault Layout := do
  -- So a key whose colon has not come by now is too late, as after any other line.
  let mark := layout.here.mark
  let mark := if mark.column = 0 then mark else { mark with column := 0, line := mark.line + 1 }
  let layout := { layout with here := ⟨mark, []⟩ }
  let layout ← (layout.closeBlocks fun _ => true).dropCandidate
  return { layout with finished := true, keyAllowed := false }

/-- Skips blanks, comments and line breaks. Tabs are skipped where no key may start. Outside flow
collections a key may start after a line break. -/
def toTokenFrom (flow : Bool) (comment keyAllowed : Bool) (mark : Mark) (cs : List Char) :
    Position × Bool :=
  match cs with
  | [] => (⟨mark, []⟩, keyAllowed)
  | '\r' :: '\n' :: rest =>
    toTokenFrom flow false (keyAllowed || !flow) (mark.nextLine 2) rest
  | c :: rest =>
    if isBreak c then toTokenFrom flow false (keyAllowed || !flow) mark.nextLine rest
    else if comment || c = '#' then toTokenFrom flow true keyAllowed mark.next rest
    else if c = ' ' || (c = '\t' && (flow || !keyAllowed)) || (c = '\ufeff' && mark.column = 0) then
      toTokenFrom flow false keyAllowed mark.next rest
    else (⟨mark, c :: rest⟩, keyAllowed)

def toToken (layout : Layout) : Layout :=
  let (here, keyAllowed) :=
    toTokenFrom layout.inFlow false layout.keyAllowed layout.here.mark layout.here.rest
  { layout with here, keyAllowed }

/-- Characters that start a plain scalar only in some places, if at all. -/
def isIndicator (c : Char) : Bool :=
  "-?:,[]{}#&*!|>'\"%@\x60".toList.contains c

def startsPlain (flow : Bool) (c : Char) (rest : List Char) : Bool :=
  (!isBlank c && !isBreak c && !isIndicator c) ||
  (c = '-' && !rest.head?.any isBlank) ||
  (!flow && (c = '?' || c = ':') && !atGap rest)

def token (layout : Layout) : Except Fault Layout :=
  let flow := layout.inFlow
  let lineStart := layout.here.mark.column = 0
  match layout.here.rest with
  | [] => layout.finish
  | c :: rest =>
    if lineStart && c = '%' then layout.directive
    else if lineStart && startsMarker (c :: rest) then
      layout.marker (if c = '-' then .documentStart else .documentEnd)
    else if c = '[' then layout.openFlow .flowSequenceStart
    else if c = '{' then layout.openFlow .flowMappingStart
    else if c = ']' then layout.closeFlow .flowSequenceEnd
    else if c = '}' then layout.closeFlow .flowMappingEnd
    else if c = ',' then layout.flowEntry
    else if c = '-' && atGap rest then layout.blockEntry
    else if c = '?' && (flow || atGap rest) then layout.key
    else if c = ':' && (flow || atGap rest) then layout.value
    else if c = '*' then
      layout.valueToken fun here => do
        let (name, after) ← anchorName .alias here
        return (.alias name, after)
    else if c = '&' then
      layout.valueToken fun here => do
        let (name, after) ← anchorName .anchor here
        return (.anchor name, after)
    else if c = '!' then layout.valueToken (Tag.scan flow)
    else if c = '|' && !flow then layout.blockScalar true
    else if c = '>' && !flow then layout.blockScalar false
    else if c = '\'' then layout.quotedScalar true
    else if c = '"' then layout.quotedScalar false
    else if startsPlain flow c rest then layout.plainScalar
    else malformed .unexpectedCharacter layout.here.mark .nextToken layout.here.mark

def next (layout : Layout) : Except Fault Layout := do
  let layout ← layout.toToken.dropStale
  (layout.closeBlocks (layout.here.mark.column < ·)).token

def firstCandidate? (layout : Layout) : Option Nat :=
  ((layout.candidate :: layout.outer).filterMap (·.map (·.number))).min?

def release (layout : Layout) : List Placed × Layout :=
  let count := match layout.firstCandidate? with
    | some number => number - layout.passed
    | none => layout.held.length
  let out := layout.held.take count
  (out, { layout with held := layout.held.drop count, passed := layout.passed + out.length })

/-- The tokens from here on, with at most `fuel` of them read from the text. -/
def tokensFrom : (fuel : Nat) → Layout → Tokens
  | 0, layout => .finish layout.here.mark
  | fuel + 1, layout =>
    match (if layout.held = [] then .ok layout else layout.dropStale) with
    | .error fault => .broken fault
    | .ok layout =>
      let (out, layout) := layout.release
      -- Tokens before a fault are passed on first, since what they say comes first.
      if layout.finished then Tokens.append out (.finish layout.here.mark)
      else
        match layout.next with
        | .error fault => Tokens.append out (.broken fault)
        | .ok layout => Tokens.append out (tokensFrom fuel layout)

end Layout

def isAllowed (c : Char) : Bool :=
  let n := c.toNat
  n = 0x09 || n = 0x0A || n = 0x0D || (0x20 ≤ n && n ≤ 0x7E) || n = 0x85 ||
  (0xA0 ≤ n && n ≤ 0xFFFD) || 0x10000 ≤ n

/-- The offset in bytes of the first character that no text may hold. -/
def forbidden? (offset : Nat) : List Char → Option Nat
  | [] => none
  | c :: rest => if isAllowed c then forbidden? (offset + c.utf8Size) rest else some offset

/-- The tokens of a text. A byte order mark before it does not belong to it. Each token takes a
character of the text, so its length bounds their number. -/
def Tokens.ofText (text : String) : Tokens :=
  let cs := text.toList
  match forbidden? 0 cs with
  | some offset => .broken (.forbiddenCharacter offset)
  | none =>
    let body := match cs with
      | '\ufeff' :: rest => rest
      | cs => cs
    Layout.tokensFrom (cs.length + 2) { here := ⟨{}, body⟩ }

end FlowTree.Yaml

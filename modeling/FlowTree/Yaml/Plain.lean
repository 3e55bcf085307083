import FlowTree.Yaml.Gap
import FlowTree.Yaml.Token

/-! Scalars without quotes. -/

set_option autoImplicit false

namespace FlowTree.Yaml

/-- A scalar that has ended: the white space after it has been passed as well. -/
structure PlainScalar where
  text : String
  stop : Mark
  after : Position
  /-- Whether the white space after it holds a line break. -/
  brokeLine : Bool

def isFlowIndicator (c : Char) : Bool :=
  c = ',' || c = '[' || c = ']' || c = '{' || c = '}'

namespace PlainScalar

def ended (reversed : List Char) (stop : Mark) (gap : Option Gap) (after : Position) :
    PlainScalar :=
  ⟨String.ofList reversed.reverse, stop, after, (gap.map Gap.isLines).getD false⟩

/-- Reads on. `gap` is the white space since the last word, and `stop` the end of that word. Outside
flow collections, lines that are indented less than `indent` do not belong to the scalar. -/
def scanFrom (flow : Bool) (indent : Nat) (start : Mark) (reversed : List Char) (stop : Mark)
    (gap : Option Gap) (mark : Mark) (cs : List Char) : Except Fault PlainScalar :=
  match cs with
  | [] => .ok (ended reversed stop gap ⟨mark, []⟩)
  | '\r' :: '\n' :: rest =>
    scanFrom flow indent start reversed stop (Gap.extendBreak '\n' gap) (mark.nextLine 2) rest
  | c :: rest =>
    if isBlank c then
      if c = '\t' && mark.column < indent && (gap.map Gap.isLines).getD false then
        malformed .tabInIndentation mark .plainScalar start
      else scanFrom flow indent start reversed stop (Gap.extendBlank c gap) mark.next rest
    else if isBreak c then
      scanFrom flow indent start reversed stop (Gap.extendBreak (breakText c) gap) mark.nextLine
        rest
    else if gap.isSome && (c = '#' || (!flow && mark.column < indent) ||
        (mark.column = 0 && startsMarker (c :: rest))) then
      .ok (ended reversed stop gap ⟨mark, c :: rest⟩)
    -- Inside a flow collection such a colon could mean two things.
    else if flow && c = ':' && rest.head?.any (fun d => d = '?' || isFlowIndicator d) then
      malformed .colonInFlow mark .plainScalar start
    else if (c = ':' && atGap rest) || (flow && isFlowIndicator c) then
      .ok (ended reversed stop gap ⟨mark, c :: rest⟩)
    else
      scanFrom flow indent start (c :: (Gap.reversedOf gap ++ reversed)) mark.next none mark.next
        rest

def scan (flow : Bool) (indent : Nat) (here : Position) : Except Fault PlainScalar :=
  scanFrom flow indent here.mark [] here.mark none here.mark here.rest

end PlainScalar

end FlowTree.Yaml

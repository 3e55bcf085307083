import FlowTree.Text.Radix
import FlowTree.Yaml.Token

/-! Anchors, aliases and tags. -/

set_option autoImplicit false

namespace FlowTree.Yaml

def endsAnchor (c : Char) : Bool :=
  c = '?' || c = ':' || c = ',' || c = ']' || c = '}' || c = '%' || c = '@' || c = '\x60'

def anchorName (activity : Activity) (here : Position) : Except Fault (String × Position) :=
  let start := here.mark
  let here := here.advance
  let name := here.rest.takeWhile isNameChar
  let here := here.advance name.length
  if name ≠ [] && (atGap here.rest || here.rest.head?.any endsAnchor) then
    .ok (String.ofList name, here)
  else malformed .anchorNameMissing here.mark activity start

namespace Tag

/-- The characters of a tag. A tag between angle brackets may hold more of them. -/
def holds (bracketed : Bool) (c : Char) : Bool :=
  isNameChar c || ";/?:@&=+$.!~*'()".toList.contains c || (bracketed && ",[]".toList.contains c)

/-- The first octet of a character tells how many octets follow, and holds its leading bits. -/
def leadingOctet? (octet : Nat) : Option (Nat × Nat) :=
  if octet < 0x80 then some (0, octet)
  else if 0xC0 ≤ octet && octet < 0xE0 then some (1, octet - 0xC0)
  else if 0xE0 ≤ octet && octet < 0xF0 then some (2, octet - 0xE0)
  else if 0xF0 ≤ octet && octet < 0xF8 then some (3, octet - 0xF0)
  else none

/-- The character of a number that was written in several octets. What is no such character is
replaced, so that it differs from all characters that known tags are made of. -/
def wideChar (code : Nat) : Char :=
  if 0x80 ≤ code && code.isValidChar then Char.ofNat code else '\ufffd'

/-- Reads the text of a tag, in which octets may be escaped. `pending` holds the number of octets
that the current character still needs, and its bits so far. -/
def scanFrom (bracketed : Bool) (activity : Activity) (start : Mark) (reversed : List Char)
    (pending : Option (Nat × Nat)) (mark : Mark) (cs : List Char) :
    Except Fault (List Char × Position) :=
  let missing : Except Fault (List Char × Position) :=
    malformed .tagOctetMissing mark activity start
  match cs with
  | '%' :: a :: b :: rest =>
    match Text.naturalIn? 16 [a, b], pending with
    | none, _ => missing
    | some octet, none =>
      match leadingOctet? octet with
      | none => malformed .tagOctetLeading mark activity start
      | some (0, code) =>
        scanFrom bracketed activity start (Char.ofNat code :: reversed) none (mark.next 3) rest
      | some (left, code) =>
        scanFrom bracketed activity start reversed (some (left, code)) (mark.next 3) rest
    | some octet, some (left, code) =>
      let code := code * 64 + octet % 64
      if octet / 64 ≠ 2 then malformed .tagOctetTrailing mark activity start
      else if left ≤ 1 then
        scanFrom bracketed activity start (wideChar code :: reversed) none (mark.next 3) rest
      else
        scanFrom bracketed activity start reversed (some (left - 1, code)) (mark.next 3) rest
  | c :: rest =>
    if pending.isSome || c = '%' then missing
    else if holds bracketed c then
      scanFrom bracketed activity start (c :: reversed) none mark.next rest
    else .ok (reversed.reverse, ⟨mark, c :: rest⟩)
  | [] => if pending.isSome then missing else .ok (reversed.reverse, ⟨mark, []⟩)

/-- Reads the text of a tag, of which nothing after a NUL counts. It may be empty only after a part
that has been read already. -/
def scanText (bracketed : Bool) (mayBeEmpty : Bool) (activity : Activity) (start : Mark)
    (here : Position) : Except Fault (String × Position) := do
  let (text, after) ← scanFrom bracketed activity start [] none here.mark here.rest
  if text = [] && !mayBeEmpty then malformed .tagTextMissing after.mark activity start
  else return (String.ofList (text.takeWhile (· ≠ '\x00')), after)

def handle (here : Position) : String × Position :=
  let name := (here.rest.drop 1).takeWhile isNameChar
  let here := here.advance (1 + name.length)
  if here.startsWith '!' then ("!" ++ String.ofList name ++ "!", here.advance)
  else ("!" ++ String.ofList name, here)

def isNamedHandle (handle : String) : Bool :=
  handle ≠ "!" && handle.toList.getLast? = some '!'

def scan (flow : Bool) (here : Position) : Except Fault (Token × Position) := do
  let start := here.mark
  let (token, here) ← (
    if (here.rest.drop 1).head? = some '<' then do
      let (suffix, here) ← scanText true false .tagText start (here.advance 2)
      if here.startsWith '>' then return (Token.tag "" suffix, here.advance)
      else malformed .tagCloseMissing here.mark .tag start
    else do
      let (handle, here) := handle here
      if isNamedHandle handle then
        let (suffix, here) ← scanText false false .tagText start here
        return (Token.tag handle suffix, here)
      else
        let (more, here) ← scanText false true .tagText start here
        let suffix := String.ofList (handle.toList.drop 1) ++ more
        return (if suffix = "" then Token.tag "" "!" else Token.tag "!" suffix, here))
  if atGap here.rest || (flow && here.startsWith ',') then return (token, here)
  else malformed .tagEndExpected here.mark .tag start

end Tag

end FlowTree.Yaml

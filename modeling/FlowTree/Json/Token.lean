import FlowTree.Json.Numeral
import FlowTree.Text.Radix

/-! The tokens of a JSON text, each with the place where it starts.

A token that cannot be read is the last one of its text. It keeps two faults, since a reader that
skips a value looks less closely than one that wants it. -/

set_option autoImplicit false

namespace FlowTree.Json

inductive Token where
  | openList | closeList | openObject | closeObject | comma | colon
  | null
  | boolean (b : Bool)
  /-- A well-formed numeral; its number may be out of range. -/
  | number (value : Except Fault Number)
  /-- A text between quotes; its escapes may pair surrogates wrongly, which only a reader that wants
  the text minds. -/
  | text (value : Except Fault String)
  /-- A text between quotes that is not well formed. -/
  | brokenText (defect : Defect)
  /-- A numeral or a word that is not well formed. -/
  | brokenValue (defect : Defect)
  /-- A character that starts no token. -/
  | stray
  /-- The end of the text. -/
  | eof

/-- A token between the offset of its first byte and the offset after its last byte. -/
structure Placed where
  start : Nat
  stop : Nat
  token : Token

namespace Text

def bytes (cs : List Char) : Nat :=
  cs.foldl (fun n c => n + c.utf8Size) 0

/-- Four hexadecimal digits. The four bytes that follow are consumed even if they are no digits. -/
def hexFour (offset : Nat) (cs : List Char) : Except Fault (Nat × List Char) :=
  match cs with
  | a :: b :: c :: d :: rest =>
    match FlowTree.Text.naturalIn? 16 [a, b, c, d] with
    | some code => .ok (code, rest)
    | none => .error ⟨.invalidEscape, some (offset + 4)⟩
  | few =>
    if bytes few < 4 then .error ⟨.eofInText, some (offset + bytes few)⟩
    else .error ⟨.invalidEscape, some (offset + 4)⟩

def simpleEscape? : Char → Option Char
  | '"' => some '"'
  | '\\' => some '\\'
  | '/' => some '/'
  | 'b' => some '\x08'
  | 'f' => some '\x0c'
  | 'n' => some '\n'
  | 'r' => some '\r'
  | 't' => some '\t'
  | _ => none

theorem hexFour_length {offset : Nat} {cs : List Char} {code : Nat} {rest : List Char}
    (h : hexFour offset cs = .ok (code, rest)) : rest.length < cs.length := by
  unfold hexFour at h
  split at h
  · split at h
    · injection h with h
      injection h with _ h
      subst h
      simp only [List.length_cons]
      omega
    · contradiction
  · split at h <;> contradiction

/-- The character of an escape whose digits come next, the offset after it and what follows it.
Two escapes in a row make one character if they hold the halves of a surrogate pair. -/
def numberedEscape (offset : Nat) (cs : List Char) : Except Fault (Char × Nat × List Char) :=
  match hexFour (offset + 2) cs with
  | .error fault => .error fault
  | .ok (code, after) =>
    if 0xDC00 ≤ code ∧ code ≤ 0xDFFF then .error ⟨.loneSurrogate, some (offset + 6)⟩
    else if code < 0xD800 ∨ 0xDBFF < code then .ok (Char.ofNat code, offset + 6, after)
    else match after with
      | '\\' :: 'u' :: low =>
        match hexFour (offset + 8) low with
        | .error fault => .error fault
        | .ok (trail, rest) =>
          if trail < 0xDC00 ∨ 0xDFFF < trail then .error ⟨.loneSurrogate, some (offset + 12)⟩
          else
            let pair := (code - 0xD800) * 0x400 + (trail - 0xDC00) + 0x10000
            .ok (Char.ofNat pair, offset + 12, rest)
      | ['\\'] => .error ⟨.eofInText, some (offset + 7)⟩
      | '\\' :: _ => .error ⟨.unfinishedSurrogatePair, some (offset + 8)⟩
      | [] => .error ⟨.eofInText, some (offset + 6)⟩
      | _ => .error ⟨.unfinishedSurrogatePair, some (offset + 7)⟩

theorem numberedEscape_length {offset : Nat} {cs : List Char} {c : Char} {stop : Nat}
    {rest : List Char} (h : numberedEscape offset cs = .ok (c, stop, rest)) :
    rest.length < cs.length := by
  unfold numberedEscape at h
  split at h
  · contradiction
  · next first =>
    have shorter := hexFour_length first
    split at h
    · contradiction
    · split at h
      · obtain ⟨_, _, rfl⟩ := by simpa only [Except.ok.injEq, Prod.mk.injEq] using h
        exact shorter
      · split at h
        · split at h
          · contradiction
          · next second =>
            have := hexFour_length second
            split at h
            · contradiction
            · obtain ⟨_, _, rfl⟩ := by simpa only [Except.ok.injEq, Prod.mk.injEq] using h
              simp only [List.length_cons] at shorter
              omega
        all_goals contradiction

structure Ended where
  value : List Char
  stop : Nat
  rest : List Char

/-- Reads up to the closing quote; `reversed` holds the characters read so far. -/
def wanted (offset : Nat) (reversed : List Char) (cs : List Char) : Except Fault Ended :=
  match cs with
  | [] => .error ⟨.eofInText, some offset⟩
  | '"' :: rest => .ok ⟨reversed.reverse, offset + 1, rest⟩
  | '\\' :: 'u' :: rest =>
    match escape : numberedEscape offset rest with
    | .error fault => .error fault
    | .ok (c, offset, after) =>
      have := numberedEscape_length escape
      wanted offset (c :: reversed) after
  | ['\\'] => .error ⟨.eofInText, some (offset + 1)⟩
  | '\\' :: c :: rest =>
    match simpleEscape? c with
    | some plain => wanted (offset + 2) (plain :: reversed) rest
    | none => .error ⟨.invalidEscape, some (offset + 2)⟩
  | c :: rest =>
    if c.toNat < 0x20 then .error ⟨.controlCharacter, some (offset + 1)⟩
    else wanted (offset + c.utf8Size) (c :: reversed) rest
termination_by cs.length
decreasing_by all_goals simp_all only [List.length_cons]; omega

def skipped (offset : Nat) (cs : List Char) : Except Fault (Nat × List Char) :=
  match cs with
  | [] => .error ⟨.eofInText, some offset⟩
  | '"' :: rest => .ok (offset + 1, rest)
  | '\\' :: 'u' :: rest =>
    match first : hexFour (offset + 2) rest with
    | .error fault => .error fault
    | .ok (_, after) =>
      have := hexFour_length first
      skipped (offset + 6) after
  | ['\\'] => .error ⟨.eofInText, some (offset + 1)⟩
  | '\\' :: c :: rest =>
    match simpleEscape? c with
    | some _ => skipped (offset + 2) rest
    | none => .error ⟨.invalidEscape, some (offset + 2)⟩
  | c :: rest =>
    if c.toNat < 0x20 then .error ⟨.controlCharacter, some offset⟩
    else skipped (offset + c.utf8Size) rest
termination_by cs.length
decreasing_by all_goals simp_all only [List.length_cons]; omega

end Text

namespace Token

def isSpace (c : Char) : Bool :=
  c = ' ' || c = '\n' || c = '\t' || c = '\r'

def word (offset : Nat) : List Char → List Char → Except Fault (Nat × List Char)
  | [], rest => .ok (offset, rest)
  | _ :: _, [] => .error ⟨.eofInValue, some offset⟩
  | want :: more, c :: rest =>
    if c = want then word (offset + 1) more rest else .error ⟨.wordExpected, some (offset + 1)⟩

/-- One token and what follows it, when more can follow. -/
structure Next where
  placed : Placed
  /-- The offset and the text after the token, if the token can be passed. -/
  after : Option (Nat × List Char)

def single (start : Nat) (token : Token) (rest : List Char) : Next :=
  ⟨⟨start, start + 1, token⟩, some (start + 1, rest)⟩

def ofWord (start : Nat) (token : Token) (letters rest : List Char) : Next :=
  match word (start + 1) letters rest with
  | .ok (stop, rest) => ⟨⟨start, stop, token⟩, some (stop, rest)⟩
  | .error fault => ⟨⟨start, start, .brokenValue ⟨fault, fault⟩⟩, none⟩

def ofText (start : Nat) (rest : List Char) : Next :=
  let value := Text.wanted (start + 1) [] rest
  match Text.skipped (start + 1) rest with
  | .ok (stop, rest) =>
    ⟨⟨start, stop, .text (value.map fun ended => String.ofList ended.value)⟩, some (stop, rest)⟩
  | .error fault =>
    match value with
    -- The faults differ when a surrogate pair breaks before the text does.
    | .error wanted => ⟨⟨start, start, .brokenText ⟨wanted, fault⟩⟩, none⟩
    | .ok _ => ⟨⟨start, start, .brokenText ⟨fault, fault⟩⟩, none⟩

def ofNumeral (start : Nat) (cs : List Char) : Next :=
  match Numeral.scan start cs with
  | .ok scanned =>
    ⟨⟨start, scanned.stop, .number (scanned.numeral.number scanned.stop)⟩,
      some (scanned.stop, scanned.rest)⟩
  | .error defect => ⟨⟨start, start, .brokenValue defect⟩, none⟩

def first (start : Nat) (c : Char) (rest : List Char) : Next :=
  match c with
  | '[' => single start .openList rest
  | ']' => single start .closeList rest
  | '{' => single start .openObject rest
  | '}' => single start .closeObject rest
  | ',' => single start .comma rest
  | ':' => single start .colon rest
  | 'n' => ofWord start .null ['u', 'l', 'l'] rest
  | 't' => ofWord start (.boolean true) ['r', 'u', 'e'] rest
  | 'f' => ofWord start (.boolean false) ['a', 'l', 's', 'e'] rest
  | '"' => ofText start rest
  | c =>
    if c = '-' || FlowTree.Text.isDigit c then ofNumeral start (c :: rest)
    else ⟨⟨start, start + c.utf8Size, .stray⟩, some (start + c.utf8Size, rest)⟩

def listFrom : (fuel : Nat) → (offset : Nat) → List Char → List Placed
  | 0, offset, _ => [⟨offset, offset, .eof⟩]
  | _, offset, [] => [⟨offset, offset, .eof⟩]
  | fuel + 1, offset, c :: rest =>
    if isSpace c then listFrom fuel (offset + 1) rest
    else
      let next := first offset c rest
      match next.after with
      | some (offset, rest) => next.placed :: listFrom fuel offset rest
      | none => [next.placed]

/-- The tokens of a text, up to the first one that cannot be passed. Every token takes a character,
so the length of the text is enough. -/
def list (text : String) : List Placed :=
  listFrom (text.toList.length + 1) 0 text.toList

end Token

end FlowTree.Json

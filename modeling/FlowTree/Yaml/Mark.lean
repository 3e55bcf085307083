import FlowTree.Text.Decimal

/-! Places in a YAML text. A place keeps the text that follows it, so moving on is recursion on that
text; lines and columns count characters. -/

set_option autoImplicit false

namespace FlowTree.Yaml

structure Mark where
  index : Nat := 0
  line : Nat := 0
  column : Nat := 0
  deriving DecidableEq

namespace Mark

def next (mark : Mark) (count : Nat := 1) : Mark :=
  { mark with index := mark.index + count, column := mark.column + count }

def nextLine (mark : Mark) (width : Nat := 1) : Mark :=
  ⟨mark.index + width, mark.line + 1, 0⟩

def unnamed (mark : Mark) : Bool :=
  mark.line = 0 && mark.column = 0

def suffix (mark : Mark) : String :=
  if mark.unnamed then ""
  else " at line " ++ Text.decimal (mark.line + 1) ++ " column " ++ Text.decimal (mark.column + 1)

end Mark

def isBreak (c : Char) : Bool :=
  c = '\n' || c = '\r' || c = '\u0085' || c = '\u2028' || c = '\u2029'

/-- The line break that a scalar gets from the text: the Unicode separators stay, all others become
line feeds. -/
def breakText (c : Char) : Char :=
  if c = '\u2028' || c = '\u2029' then c else '\n'

def isBlank (c : Char) : Bool :=
  c = ' ' || c = '\t'

def isNameChar (c : Char) : Bool :=
  Text.isDigit c || ('a' ≤ c && c ≤ 'z') || ('A' ≤ c && c ≤ 'Z') || c = '_' || c = '-'

def atGap : List Char → Bool
  | [] => true
  | c :: _ => isBlank c || isBreak c

def atLineEnd : List Char → Bool
  | [] => true
  | c :: _ => isBreak c

/-- Whether a text starts with the marker of a document's start or end. It counts at the start of a
line only. -/
def startsMarker (cs : List Char) : Bool :=
  match cs with
  | '-' :: '-' :: '-' :: rest => atGap rest
  | '.' :: '.' :: '.' :: rest => atGap rest
  | _ => false

structure Position where
  mark : Mark := {}
  rest : List Char

namespace Position

/-- The position after a number of characters that break no line. -/
def advance (here : Position) (count : Nat := 1) : Position :=
  ⟨here.mark.next count, here.rest.drop count⟩

def startsWith (here : Position) (c : Char) : Bool :=
  here.rest.head? = some c

def skipWhileFrom (ok : Char → Bool) (mark : Mark) : List Char → Position
  | [] => ⟨mark, []⟩
  | c :: rest => if ok c then skipWhileFrom ok mark.next rest else ⟨mark, c :: rest⟩

def skipWhile (here : Position) (ok : Char → Bool) : Position :=
  skipWhileFrom ok here.mark here.rest

theorem skipWhileFrom_rest (ok : Char → Bool) (mark : Mark) (cs : List Char) :
    (skipWhileFrom ok mark cs).rest = cs.dropWhile ok := by
  induction cs generalizing mark with
  | nil => rfl
  | cons c rest ih => by_cases h : ok c <;> simp [skipWhileFrom, h, ih]

theorem skipWhile_length (here : Position) (ok : Char → Bool) :
    (here.skipWhile ok).rest.length ≤ here.rest.length := by
  rw [skipWhile, skipWhileFrom_rest]
  exact (List.dropWhile_sublist ok).length_le

def skipComment (here : Position) : Position :=
  if here.startsWith '#' then here.skipWhile (!isBreak ·) else here

def lineBreak (here : Position) : Option Char × Position :=
  match here.rest with
  | '\r' :: '\n' :: rest => (some '\n', ⟨here.mark.nextLine 2, rest⟩)
  | c :: rest => if isBreak c then (some (breakText c), ⟨here.mark.nextLine, rest⟩) else (none, here)
  | [] => (none, here)

theorem lineBreak_length (here : Position) :
    here.lineBreak.2.rest.length ≤ here.rest.length := by
  unfold lineBreak
  split
  · next rest same => simp [same]; omega
  · next c rest _ same => by_cases h : isBreak c <;> simp [h, same]
  · simp

end Position

end FlowTree.Yaml

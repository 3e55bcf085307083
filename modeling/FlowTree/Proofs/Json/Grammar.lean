import FlowTree.Json.Value
import Mathlib.Data.List.Basic

/-! The grammar of JSON texts: what words they are made of, and which sequences of words make a value.

The grammar knows nothing of places in a text. A numeral may be out of range, and the escapes of a text may
pair surrogates wrongly; such a word is well formed all the same, though there is no number or text that it
stands for. -/

set_option autoImplicit false

namespace FlowTree.Json

open FlowTree.Text (isDigit naturalIn?)

inductive Sign where
  | openList | closeList | openObject | closeObject | comma | colon
  | null
  | boolean (b : Bool)
  | number (n : Option Number)
  | text (s : Option String)
  /-- The end of the text. -/
  | eof
  /-- Something that is no word. -/
  | flaw

section Numerals

def Digits (digits : List Char) : Prop :=
  digits ≠ [] ∧ ∀ c ∈ digits, isDigit c = true

inductive Numeral.Exponent : Option (Bool × List Char) → List Char → Prop where
  | none : Exponent none []
  | unsigned {mark : Char} {digits : List Char} (marks : mark = 'e' ∨ mark = 'E') (digital : Digits digits) :
    Exponent (some (false, digits)) (mark :: digits)
  | plus {mark : Char} {digits : List Char} (marks : mark = 'e' ∨ mark = 'E') (digital : Digits digits) :
    Exponent (some (false, digits)) (mark :: '+' :: digits)
  | minus {mark : Char} {digits : List Char} (marks : mark = 'e' ∨ mark = 'E') (digital : Digits digits) :
    Exponent (some (true, digits)) (mark :: '-' :: digits)

inductive Numeral.Fraction : Option (List Char) → List Char → Prop where
  | none : Fraction none []
  | some {digits : List Char} (digital : Digits digits) : Fraction (some digits) ('.' :: digits)

/-- How a numeral is written. Its whole part has no zero in front. -/
structure Numeral.Written (numeral : Numeral) (text : List Char) : Prop where
  whole : Digits numeral.whole
  leading : ∀ more, numeral.whole = '0' :: more → more = []
  parts : ∃ fraction exponent, Fraction numeral.fraction fraction ∧ Exponent numeral.exponent exponent ∧
    text = (if numeral.negative then ['-'] else []) ++ numeral.whole ++ fraction ++ exponent

def Numeral.value? (numeral : Numeral) : Option Number :=
  (numeral.number 0).toOption

def continues (c : Char) : Bool :=
  isDigit c || c = '.' || c = 'e' || c = 'E'

def Stops (rest : List Char) : Prop :=
  ∀ c ∈ rest.head?, continues c = false

end Numerals

section Texts

inductive Piece where
  /-- A character that stands for itself. -/
  | plain (c : Char)
  /-- A character that is written as a letter after a backslash. -/
  | escaped (letter c : Char)
  /-- Four hexadecimal digits, with the number that they stand for. -/
  | numbered (digits : List Char) (code : Nat)

namespace Piece

def chars : Piece → List Char
  | plain c => [c]
  | escaped letter _ => ['\\', letter]
  | numbered digits _ => '\\' :: 'u' :: digits

def WellFormed : Piece → Prop
  | plain c => c ≠ '"' ∧ c ≠ '\\' ∧ 0x20 ≤ c.toNat
  | escaped letter c => Text.simpleEscape? letter = some c
  | numbered digits code => digits.length = 4 ∧ naturalIn? 16 digits = some code

/-- The text of its parts. The halves of a surrogate pair make one character, and nothing else may stand
for a surrogate. -/
def decode : List Piece → Option (List Char)
  | [] => some []
  | plain c :: rest | escaped _ c :: rest => (decode rest).map (c :: ·)
  | numbered _ code :: rest =>
    if 0xDC00 ≤ code ∧ code ≤ 0xDFFF then none
    else if code < 0xD800 ∨ 0xDBFF < code then (decode rest).map (Char.ofNat code :: ·)
    else match rest with
      | numbered _ trail :: rest =>
        if trail < 0xDC00 ∨ 0xDFFF < trail then none
        else
          let pair := (code - 0xD800) * 0x400 + (trail - 0xDC00) + 0x10000
          (decode rest).map (Char.ofNat pair :: ·)
      | _ => none

end Piece

end Texts

inductive Lexeme : List Char → Sign → Prop where
  | openList : Lexeme ['['] .openList
  | closeList : Lexeme [']'] .closeList
  | openObject : Lexeme ['{'] .openObject
  | closeObject : Lexeme ['}'] .closeObject
  | comma : Lexeme [','] .comma
  | colon : Lexeme [':'] .colon
  | null : Lexeme ['n', 'u', 'l', 'l'] .null
  | boolean (b : Bool) : Lexeme (if b then "true" else "false").toList (.boolean b)
  | numeral {numeral : Numeral} {word : List Char} (written : numeral.Written word) :
    Lexeme word (.number numeral.value?)
  | quoted {pieces : List Piece} (wellFormed : ∀ piece ∈ pieces, piece.WellFormed) :
    Lexeme ('"' :: pieces.flatMap Piece.chars ++ ['"']) (.text ((Piece.decode pieces).map String.ofList))

/-- A text of words with any blanks between them. A numeral goes on for as long as it can. -/
inductive Spells : List Char → List Sign → Prop where
  | nil : Spells [] []
  | blank {c : Char} {cs : List Char} {signs : List Sign} (space : Token.isSpace c = true)
    (further : Spells cs signs) : Spells (c :: cs) signs
  | word {word rest : List Char} {sign : Sign} {signs : List Sign} (lexeme : Lexeme word sign)
    (apart : ∀ n, sign = .number n → Stops rest) (further : Spells rest signs) :
    Spells (word ++ rest) (sign :: signs)

/-- A value with the form that a text gives it: the fields of an object are in their order, and a key may
occur more than once. -/
inductive Tree where
  | null
  | boolean (b : Bool)
  | number (n : Option Number)
  | text (s : Option String)
  | list (items : List Tree)
  | object (fields : List (Option String × Tree))

namespace Tree

/-- Induction in which a list or an object has the hypothesis for each of its parts. -/
@[induction_eliminator]
theorem induction {motive : Tree → Prop} (null : motive .null) (boolean : ∀ b, motive (.boolean b))
    (number : ∀ n, motive (.number n)) (text : ∀ s, motive (.text s))
    (list : ∀ items, (∀ item ∈ items, motive item) → motive (.list items))
    (object : ∀ fields, (∀ field ∈ fields, motive field.2) → motive (.object fields))
    (tree : Tree) : motive tree :=
  @Tree.rec motive (fun items => ∀ item ∈ items, motive item)
    (fun fields => ∀ field ∈ fields, motive field.2) (fun field => motive field.2)
    null boolean number text list object (fun _ mem => nomatch mem)
    (fun _ _ head tail item mem => by
      rcases List.mem_cons.1 mem with rfl | mem
      · exact head
      · exact tail item mem)
    (fun _ mem => nomatch mem)
    (fun _ _ head tail field mem => by
      rcases List.mem_cons.1 mem with rfl | mem
      · exact head
      · exact tail field mem)
    (fun _ _ tree => tree) tree

mutual

def signs : Tree → List Sign
  | .null => [.null]
  | .boolean b => [.boolean b]
  | .number n => [.number n]
  | .text s => [.text s]
  | .list items => .openList :: (itemSigns items ++ [.closeList])
  | .object fields => .openObject :: (fieldSigns fields ++ [.closeObject])

def itemSigns : List Tree → List Sign
  | [] => []
  | [last] => signs last
  | item :: rest => signs item ++ .comma :: itemSigns rest

def fieldSigns : List (Option String × Tree) → List Sign
  | [] => []
  | [(key, tree)] => .text key :: .colon :: signs tree
  | (key, tree) :: rest => .text key :: .colon :: (signs tree ++ .comma :: fieldSigns rest)

end

def Spelled (tree : Tree) (text : String) : Prop :=
  Spells text.toList tree.signs

end Tree

end FlowTree.Json

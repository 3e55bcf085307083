import FlowTree.Text.Radix
import FlowTree.Text.Real
import FlowTree.Yaml.Event

/-! What scalars mean: nothing, truth values, numbers or texts. A scalar without quotes is read as
the first of these that it could be, unless its tag says what it is. -/

set_option autoImplicit false

namespace FlowTree.Yaml

namespace Plain

def isNull (s : String) : Bool :=
  s = "null" || s = "Null" || s = "NULL" || s = "~"

def boolean? (s : String) : Option Bool :=
  if s = "true" || s = "True" || s = "TRUE" then some true
  else if s = "false" || s = "False" || s = "FALSE" then some false
  else none

def unsigned (signs : List Char) : List Char → List Char
  | c :: rest => if signs.contains c then rest else c :: rest
  | [] => []

def isPaddedDigits (cs : List Char) : Bool :=
  match unsigned ['-', '+'] cs with
  | '0' :: d :: rest => (d :: rest).all Text.isDigit
  | _ => false

def base? : Char → Option Nat
  | 'x' => some 16
  | 'o' => some 8
  | 'b' => some 2
  | _ => none

def magnitude? (padded : Bool) (cs : List Char) : Option Nat :=
  let decimal? := if padded then none else Text.naturalIn? 10 cs
  match cs with
  | '0' :: c :: digits =>
    match base? c with
    | some base => Text.naturalIn? base digits
    | none => decimal?
  | _ => decimal?

def natural? (cs : List Char) : Option Nat :=
  magnitude? (isPaddedDigits cs) (unsigned ['+'] cs)

def negative? : List Char → Option Nat
  | '-' :: cs => magnitude? (isPaddedDigits ('-' :: cs)) cs
  | _ => none

def integer? (cs : List Char) : Option Found :=
  match natural? cs, negative? cs with
  | some n, _ =>
    if n < Text.wordBound then some (.integer n)
    else if n < Nat.pow 2 128 then some (.wide n false)
    else none
  | none, some n =>
    if n ≤ Nat.pow 2 63 then some (.integer (-(n : Int)))
    else if n ≤ Nat.pow 2 127 then some (.wide (-(n : Int)) true)
    else none
  | none, none => none

/-- The bits of `digits * 10 ^ power`, if that is not too large for a floating point number. -/
def realBits? (negative : Bool) (digits : Nat) (power : Int) : Option UInt64 :=
  let size : Int := (Nat.toDigits 10 digits).length
  let magnitude : Float :=
    if digits = 0 || size + power < -400 then 0.0
    else if 400 < size + power then 1.0 / 0.0
    else Float.ofScientific digits (power < 0) power.natAbs
  if magnitude.isInf then none else some (if negative then -magnitude else magnitude).toBits

def exponent? : List Char → Option Int
  | [] => some 0
  | c :: rest =>
    if c = 'e' || c = 'E' then
      match rest with
      | '-' :: digits => (Text.naturalIn? 10 digits).map Int.negOfNat
      | digits => (Text.naturalIn? 10 (unsigned ['+'] digits)).map Int.ofNat
    else none

def decimal? (cs : List Char) : Option UInt64 := do
  let body := unsigned ['-'] cs
  let whole := body.takeWhile Text.isDigit
  let (fraction, rest) := match body.drop whole.length with
    | '.' :: rest => (rest.takeWhile Text.isDigit, rest.dropWhile Text.isDigit)
    | rest => ([], rest)
  let exponent ← exponent? rest
  let digits ← Text.naturalIn? 10 (whole ++ fraction)
  realBits? (cs.head? = some '-') digits (exponent - fraction.length)

/-- A number with a fraction or an exponent, or one that is not finite, as text. -/
def real? (s : String) : Option String :=
  let cs := s.toList
  let unsignedText := unsigned ['+'] cs
  let signs := match cs with
    | '+' :: c :: _ => c = '+' || c = '-'
    | _ => false
  if signs then none
  else if [".inf", ".Inf", ".INF"].contains (String.ofList unsignedText) then some "inf"
  else if ["-.inf", "-.Inf", "-.INF"].contains s then some "-inf"
  else if [".nan", ".NaN", ".NAN"].contains s then some "NaN"
  else (decimal? unsignedText).map Text.plainReal.text

def found (s : String) : Found :=
  if s = "" || isNull s then .nothing
  else match boolean? s with
    | some b => .boolean b
    | none => match integer? s.toList with
      | some n => n
      | none =>
        if isPaddedDigits s.toList then .text s
        else ((real? s).map Found.real).getD (.text s)

end Plain

namespace Scalar

def typeTag (name : String) : String :=
  "tag:yaml.org,2002:" ++ name

/-- A scalar is not what its reader expects: it is of another kind, or its text does not fit its
tag. -/
def unlike (scalar : Scalar) (expected : String) : Mismatch :=
  let s := scalar.text
  let kind (found : Found) : Mismatch := .kind found expected
  let tagged (found : Option Found) (name : String) : Mismatch :=
    match found with
    | some found => kind found
    | none => .value (.text s) name
  match scalar.tag with
  | none => kind (if scalar.style = .plain then Plain.found s else .text s)
  | some tag =>
    if tag = typeTag "bool" then tagged ((Plain.boolean? s).map .boolean) "a boolean"
    else if tag = typeTag "int" then tagged (Plain.integer? s.toList) "an integer"
    else if tag = typeTag "float" then tagged ((Plain.real? s).map .real) "a float"
    else if tag = typeTag "null" then
      tagged (if Plain.isNull s then some .nothing else none) "null"
    else if tag.startsWith "!" && scalar.style = .plain then kind (Plain.found s)
    else kind (.text s)

/-- An unsigned number of 64 bits. It is written without quotes, or over lines of its own with the
tag of whole numbers. -/
def word? (scalar : Scalar) : Option UInt64 :=
  if scalar.style = .plain || (scalar.style = .literal && scalar.tag = some (typeTag "int")) then
    match Plain.natural? scalar.text.toList with
    | some n => if n < Text.wordBound then some (UInt64.ofNat n) else none
    | none => none
  else none

/-- Whether a scalar has no text, so that it can stand for a collection without parts. -/
def isBlank (scalar : Scalar) : Bool :=
  scalar.style = .plain && scalar.text = ""

end Scalar

end FlowTree.Yaml

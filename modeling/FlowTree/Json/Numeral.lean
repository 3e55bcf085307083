import FlowTree.Json.Fault
import FlowTree.Text.Real

/-! Numerals of JSON texts, and the numbers that they stand for.

Whole numbers that fit 64 bits are exact. All others become floating point numbers by one
multiplication or division of the leading digits with a power of ten. -/

set_option autoImplicit false

namespace FlowTree.Json

inductive Number where
  | natural (n : Nat)
  /-- The number below zero with this magnitude. -/
  | negative (magnitude : Nat)
  /-- A floating point number, by its bits. -/
  | real (bits : UInt64)
  deriving DecidableEq

def Number.found : Number → Found
  | .natural n => .integer n
  | .negative n => .integer (-(n : Int))
  | .real bits => .real (Text.compactReal.text bits)

/-- The parts of a well-formed numeral; `whole` has no leading zero unless it is `0`. -/
structure Numeral where
  negative : Bool
  whole : List Char
  fraction : Option (List Char)
  /-- The digits of the exponent, after whether it is negative. -/
  exponent : Option (Bool × List Char)

/-- The faults of a token that cannot be read: for a reader that wants the value, and for one that
only skips it. -/
structure Defect where
  wanted : Fault
  skipped : Fault

namespace Numeral

def span (cs : List Char) : List Char × List Char :=
  (cs.takeWhile Text.isDigit, cs.dropWhile Text.isDigit)

def missingDigit (offset : Nat) (rest : List Char) : Defect :=
  match rest with
  | [] => ⟨⟨.eofInValue, some offset⟩, ⟨.invalidNumber, some offset⟩⟩
  | _ => ⟨⟨.invalidNumber, some (offset + 1)⟩, ⟨.invalidNumber, some (offset + 1)⟩⟩

structure Scanned where
  numeral : Numeral
  stop : Nat
  rest : List Char

def scanExponent (negative : Bool) (whole : List Char) (fraction : Option (List Char))
    (offset : Nat) (cs : List Char) : Except Defect Scanned :=
  let signed (below : Bool) (offset : Nat) (cs : List Char) : Except Defect Scanned :=
    match span cs with
    | ([], rest) => .error (missingDigit offset rest)
    | (digits, rest) =>
      .ok ⟨⟨negative, whole, fraction, some (below, digits)⟩, offset + digits.length, rest⟩
  let marked (rest : List Char) : Except Defect Scanned :=
    match rest with
    | '+' :: rest => signed false (offset + 2) rest
    | '-' :: rest => signed true (offset + 2) rest
    | rest => signed false (offset + 1) rest
  match cs with
  | 'e' :: rest => marked rest
  | 'E' :: rest => marked rest
  | rest => .ok ⟨⟨negative, whole, fraction, none⟩, offset, rest⟩

def scanFraction (negative : Bool) (whole : List Char) (offset : Nat) :
    List Char → Except Defect Scanned
  | '.' :: rest =>
    match span rest with
    | ([], rest) => .error (missingDigit (offset + 1) rest)
    | (digits, rest) =>
      scanExponent negative whole (some digits) (offset + 1 + digits.length) rest
  | rest => scanExponent negative whole none offset rest

def scanWhole (negative : Bool) (offset : Nat) (cs : List Char) : Except Defect Scanned :=
  match span cs with
  | ([], rest) => .error (missingDigit offset rest)
  | ('0' :: _ :: _, _) =>
    let fault : Fault := ⟨.invalidNumber, some (offset + 2)⟩
    .error ⟨fault, fault⟩
  | (digits, rest) => scanFraction negative digits (offset + digits.length) rest

def scan (offset : Nat) : List Char → Except Defect Scanned
  | '-' :: rest => scanWhole true (offset + 1) rest
  | cs => scanWhole false offset cs

/-- Appends digits to a significand for as long as it fits 64 bits; the digits that do not fit are
left over. -/
def extend (significand : Nat) : List Char → Nat × List Char
  | [] => (significand, [])
  | c :: rest =>
    let next := significand * 10 + Text.digitValue c
    if next < Text.wordBound then extend next rest else (significand, c :: rest)

/-- The exponent that digits denote, unless it exceeds 31 bits; then the number of digits up to the
one that does. -/
def exponentValue (value count : Nat) : List Char → Except Nat Nat
  | [] => .ok value
  | c :: rest =>
    let next := value * 10 + Text.digitValue c
    if next < Nat.pow 2 31 then exponentValue next (count + 1) rest else .error (count + 1)

/-- `significand * 10 ^ power`, by powers of ten that a floating point number can hold; none when it
is too large. -/
def scale (significand : Float) (power : Int) : Nat → Option Float
  | 0 => some significand
  | steps + 1 =>
    if power.natAbs ≤ 308 then
      let factor := Float.ofScientific 1 false power.natAbs
      if 0 ≤ power then
        let scaled := significand * factor
        if scaled.isInf then none else some scaled
      else some (significand / factor)
    else if significand == 0.0 then some significand
    else if 0 ≤ power then none
    else scale (significand / Float.ofScientific 1 false 308) (power + 308) steps

def real (negative : Bool) (f : Float) : Number :=
  .real (if negative then -f else f).toBits

def number (numeral : Numeral) (stop : Nat) : Except Fault Number :=
  let (leading, extra) := extend 0 numeral.whole
  let outOfRange (offset : Nat) : Except Fault Number := .error ⟨.numberOutOfRange, some offset⟩
  let scaled (significand : Nat) (power : Int) : Except Fault Number :=
    match scale (Float.ofNat significand) power 4 with
    | some f => .ok (real numeral.negative f)
    | none => outOfRange stop
  let (significand, power) :=
    match numeral.fraction with
    | none => (leading, (extra.length : Int))
    | some digits =>
      -- Digits of the fraction may still fit after some of the whole part have been left over.
      let (significand, left) := extend leading digits
      (significand, (extra.length : Int) - ((digits.length - left.length : Nat) : Int))
  match numeral.exponent with
  | some (below, digits) =>
    match exponentValue 0 0 digits with
    | .ok exponent => scaled significand (if below then power - exponent else power + exponent)
    | .error count =>
      if significand ≠ 0 && !below then outOfRange (stop - digits.length + count)
      else .ok (real numeral.negative 0.0)
  | none =>
    if numeral.fraction.isSome || extra ≠ [] then scaled significand power
    else if !numeral.negative then .ok (.natural leading)
    -- A zero with a minus sign is no whole number.
    else if 0 < leading && leading ≤ Nat.pow 2 63 then .ok (.negative leading)
    else .ok (real true (Float.ofNat leading))

end Numeral

end FlowTree.Json

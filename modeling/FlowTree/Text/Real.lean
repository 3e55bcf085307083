import FlowTree.Text.Decimal

/-! Decimal text of 64-bit floating point numbers: the fewest digits that read back as the number,
and of those the nearest. A number is given by its bits, so that all of this is exact arithmetic on
whole numbers. -/

set_option autoImplicit false

namespace FlowTree.Text

def fractionBound : Nat := Nat.pow 2 52

def fieldBound : Nat := Nat.pow 2 11

/-- Bits that stand for a number with a minus sign are not below this. -/
def signBound : Nat := Nat.pow 2 63

/-- A finite positive number as `mantissa * 2 ^ exponent`, with the width of the gap below it. -/
structure Binary where
  mantissa : Nat
  exponent : Int
  /-- Whether the next number below is only half as far away as the next one above. -/
  narrow : Bool

def Binary.ofBits (bits : UInt64) : Binary :=
  let fraction : Nat := bits.toNat % fractionBound
  let field : Nat := bits.toNat / fractionBound % fieldBound
  if field = 0 then ⟨fraction, -1074, false⟩
  else ⟨fractionBound + fraction, (field : Int) - 1075, fraction = 0 && field > 1⟩

/-- Four times the number, its lower bound and its upper bound, over one denominator: every real
between the bounds rounds to the number. -/
structure Interval where
  low : Nat
  mid : Nat
  high : Nat
  denominator : Nat
  /-- Whether the bounds themselves round to the number. -/
  closed : Bool

def Binary.interval (b : Binary) : Interval :=
  let unit := Nat.pow 2 b.exponent.toNat
  { low := 4 * b.mantissa * unit - (if b.narrow then 1 else 2) * unit
    mid := 4 * b.mantissa * unit
    high := 4 * b.mantissa * unit + 2 * unit
    denominator := 4 * Nat.pow 2 (-b.exponent).toNat
    closed := b.mantissa % 2 = 0 }

def Interval.holds (i : Interval) (digits : Nat) (power : Int) : Bool :=
  let scaled := digits * Nat.pow 10 power.toNat * i.denominator
  let scale := Nat.pow 10 (-power).toNat
  if i.closed then i.low * scale ≤ scaled && scaled ≤ i.high * scale
  else i.low * scale < scaled && scaled < i.high * scale

/-- How far `digits * 10 ^ power` is from the number, in units that depend on the power alone. -/
def Interval.distance (i : Interval) (digits : Nat) (power : Int) : Nat :=
  let scaled := digits * Nat.pow 10 power.toNat * i.denominator
  let target := i.mid * Nat.pow 10 (-power).toNat
  (scaled - target) + (target - scaled)

def Interval.magnitude (i : Interval) : Int :=
  if i.denominator ≤ i.mid then ((Nat.toDigits 10 (i.mid / i.denominator)).length : Int) - 1
  else
    let zeros : Nat := ((List.range 400).find? fun j => i.denominator ≤ i.mid * Nat.pow 10 j).getD 0
    Int.negOfNat zeros

/-- The best decimal on the grid of multiples of `10 ^ power`, if one rounds to the number. `tieUp`
tells from the digits of the lower one of two that are equally near whether the other is better. -/
def Interval.onGrid? (i : Interval) (tieUp : Nat → Bool) (power : Int) : Option Nat :=
  let below := i.mid * Nat.pow 10 (-power).toNat / (i.denominator * Nat.pow 10 power.toNat)
  match i.holds below power, i.holds (below + 1) power with
  | true, true =>
    match compare (i.distance below power) (i.distance (below + 1) power) with
    | .lt => some below
    | .eq => some (if tieUp below then below + 1 else below)
    | .gt => some (below + 1)
  | true, false => some below
  | false, true => some (below + 1)
  | false, false => none

structure Scientific where
  digits : Nat
  power : Int

def Interval.shortest (i : Interval) (tieUp : Nat → Bool) : Scientific :=
  let top := i.magnitude
  let grids := (List.range 17).map fun (n : Nat) => top - (n : Int)
  match grids.findSome? fun power => (i.onGrid? tieUp power).map (Scientific.mk · power) with
  | some found => found
  | none => ⟨0, 0⟩

/-- Where an exact decimal is written with an exponent, and how. -/
structure RealStyle where
  /-- The first digit's least power of ten that is written without an exponent. -/
  least : Int
  /-- The greatest such power. -/
  greatest : Int
  /-- Whether a tie between the number with these digits and the next one goes to the next one. -/
  tieUp : (digits : Nat) → Bool

def Scientific.trimmed (s : Scientific) : List Char × Int :=
  let digits := Nat.toDigits 10 s.digits
  let zeros := (digits.reverse.takeWhile (· = '0')).length
  (digits.take (digits.length - zeros), s.power + zeros)

def positional (digits : List Char) (power : Int) : String :=
  let point := (digits.length : Int) + power
  if 0 ≤ power then String.ofList (digits ++ List.replicate power.toNat '0') ++ ".0"
  else if 0 < point then
    String.ofList (digits.take point.toNat) ++ "." ++ String.ofList (digits.drop point.toNat)
  else "0." ++ String.ofList (List.replicate (-point).toNat '0' ++ digits)

def withExponent (digits : List Char) (power : Int) : String :=
  let top := (digits.length : Int) + power - 1
  let tail := match digits.drop 1 with
    | [] => ""
    | more => "." ++ String.ofList more
  String.ofList (digits.take 1) ++ tail ++ "e" ++ (if top < 0 then "-" else "+") ++
    decimal top.natAbs

def RealStyle.text (style : RealStyle) (bits : UInt64) : String :=
  let sign := if bits.toNat / signBound = 1 then "-" else ""
  let field := bits.toNat / fractionBound % fieldBound
  if field = 2047 then
    if bits.toNat % fractionBound = 0 then sign ++ "inf" else "NaN"
  else
    let binary := Binary.ofBits bits
    if binary.mantissa = 0 then sign ++ "0.0"
    else
      let (digits, power) := (binary.interval.shortest style.tieUp).trimmed
      let top := (digits.length : Int) + power - 1
      if style.least ≤ top && top ≤ style.greatest then sign ++ positional digits power
      else sign ++ withExponent digits power

/-- Exponents are kept for very small and very large numbers, and ties go to even digits. -/
def compactReal : RealStyle := ⟨-5, 15, (· % 2 = 1)⟩

def plainReal : RealStyle := ⟨-400, 400, fun _ => true⟩

end FlowTree.Text

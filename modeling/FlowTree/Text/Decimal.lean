/-! Decimal digits: the number that a run of digits denotes, and its canonical text. -/

set_option autoImplicit false

namespace FlowTree.Text

def isDigit (c : Char) : Bool :=
  '0'.toNat ≤ c.toNat && c.toNat ≤ '9'.toNat

def digitValue (c : Char) : Nat :=
  c.toNat - '0'.toNat

def valueFrom (high : Nat) (cs : List Char) : Nat :=
  cs.foldl (fun value c => 10 * value + digitValue c) high

def value (cs : List Char) : Nat :=
  valueFrom 0 cs

def natural? (cs : List Char) : Option Nat :=
  if cs ≠ [] ∧ cs.all isDigit then some (value cs) else none

def wordBound : Nat := 18446744073709551616

/-- An unsigned 64-bit number: digits after at most one plus sign, with any leading zeros. -/
def word? (cs : List Char) : Option Nat :=
  let digits := match cs with
    | '+' :: rest => rest
    | other => other
  match natural? digits with
  | some n => if n < wordBound then some n else none
  | none => none

def decimal (n : Nat) : String :=
  Nat.repr n

end FlowTree.Text

import FlowTree.Text.Decimal

/-! Whole numbers written in any base up to thirty-six. -/

set_option autoImplicit false

namespace FlowTree.Text

/-- The value of a character as a digit in a base. Letters of both cases count from ten. -/
def digitIn? (base : Nat) (c : Char) : Option Nat :=
  let found : Option Nat :=
    if isDigit c then some (digitValue c)
    else if 'a' ≤ c ∧ c ≤ 'z' then some (c.toNat - 'a'.toNat + 10)
    else if 'A' ≤ c ∧ c ≤ 'Z' then some (c.toNat - 'A'.toNat + 10)
    else none
  found.filter (· < base)

def valueIn? (base : Nat) : (high : Nat) → List Char → Option Nat
  | high, [] => some high
  | high, c :: rest => do
    let digit ← digitIn? base c
    valueIn? base (base * high + digit) rest

def naturalIn? (base : Nat) : List Char → Option Nat
  | [] => none
  | digits => valueIn? base 0 digits

end FlowTree.Text

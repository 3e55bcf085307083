import FlowTree.Text.Decimal

/-! Spans of time: whole seconds of 64 bits and nanoseconds below one second, held as one count of
nanoseconds. The short text of a duration uses the largest unit that is not zero. -/

set_option autoImplicit false

namespace FlowTree

structure Duration where
  nanos : Nat
  inRange : nanos < Text.wordBound * 1000000000 := by omega
  deriving DecidableEq

namespace Duration

/-- The duration of that many nanoseconds, unless the seconds overflow 64 bits. -/
def ofNanos? (n : Nat) : Option Duration :=
  if h : n < Text.wordBound * 1000000000 then some ⟨n, h⟩ else none

def ofParts? (secs nanos : Nat) : Option Duration :=
  ofNanos? (secs * 1000000000 + nanos)

def ofMillis (ms : UInt64) : Duration :=
  ⟨ms.toNat * 1000000, by have := ms.toNat_lt; simp only [Text.wordBound]; omega⟩

def secs (d : Duration) : Nat := d.nanos / 1000000000

def subsecNanos (d : Duration) : Nat := d.nanos % 1000000000

def millisUp (d : Duration) : Nat := (d.nanos + 999999) / 1000000

theorem millisUp_ofMillis (ms : UInt64) : (ofMillis ms).millisUp = ms.toNat := by
  simp only [millisUp, ofMillis]; omega

def fraction (part : Nat) (digits : Nat) : List Char :=
  let shown := (Nat.toDigits 10 part)
  let padded := List.replicate (digits - shown.length) '0' ++ shown
  (padded.reverse.dropWhile (· = '0')).reverse

def fixed (whole part digits : Nat) : String :=
  match fraction part digits with
  | [] => Text.decimal whole
  | decimals => Text.decimal whole ++ "." ++ String.ofList decimals

/-- The text in the largest unit of s, ms, µs and ns in which the duration is at least one. -/
def text (d : Duration) : String :=
  let n := d.nanos
  if 1000000000 ≤ n then fixed (n / 1000000000) (n % 1000000000) 9 ++ "s"
  else if 1000000 ≤ n then fixed (n / 1000000) (n % 1000000) 6 ++ "ms"
  else if 1000 ≤ n then fixed (n / 1000) (n % 1000) 3 ++ "µs"
  else Text.decimal n ++ "ns"

end Duration

end FlowTree

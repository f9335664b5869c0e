import DebugBridge.Number.Shortest

/-!
# Number/Basic — the numbers of a frame

A number in a frame is an integer that fits 64 bits, signed or unsigned, or a finite double. Which
of the two it is depends on how it was written and is kept: `1` and `1.0` are different numbers.
-/

namespace DebugBridge

/-- A JSON number. Integers cover both 64-bit ranges, `-2^63` up to `2^64 - 1`. -/
inductive Number where
  | integer (value : Int) 
      (fits : -9223372036854775808 ≤ value ∧ value < 18446744073709551616)
  | real (value : Double)
  deriving DecidableEq, Repr

namespace Number

/-- The number of an unsigned word. -/
def ofWord (word : UInt64) : Number :=
  .integer word.toNat ⟨by omega, by have := word.toNat_lt; omega⟩

/-- The unsigned word that a number is, if it is one. -/
def word? : Number → Option UInt64
  | .integer value _ => if 0 ≤ value then some (UInt64.ofNat value.toNat) else none
  | .real _ => none

/-- **Equality of numbers**: integers by value, doubles by value, and never one with the other. -/
def same : Number → Number → Bool
  | .integer a _, .integer b _ => a == b
  | .real a, .real b => a.same b
  | _, _ => false

/-- The text of a number. -/
def text : Number → String
  | .integer value _ => toString value
  | .real value => value.text

end Number

end DebugBridge

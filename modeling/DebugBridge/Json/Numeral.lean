import DebugBridge.Json.Fault

/-!
# Json/Numeral — numbers as they are written

A numeral has a sign, whole digits, and may have a fraction and an exponent. Reading splits it into
these parts, and `Numeral.number?` gives its value: an integer if it has neither fraction nor
exponent and fits 64 bits, a double otherwise, and nothing beyond the range of doubles.

```
  -12.50e3   --read-->   ⟨negative, 12, some 50, some 3⟩   --number?-->   -12500.0
```

A double takes the leading digits that together fit 64 bits; the digits after those count only for
the power of ten.
-/

namespace DebugBridge

/-- What stands at the front of a text, and the text after it. -/
abbrev Front (α : Type) := α × List UInt8

/-- What reads something off the front of a text. -/
abbrev Reader (α : Type) := List UInt8 → Except TextFault (Front α)

namespace Json

/-- Whether a value is kept or skipped. A skipped value is checked in its layout only: its numbers
may be out of range and its strings need not be well-formed text. -/
inductive Mode where
  | keep
  | skip
  deriving DecidableEq, Repr

/-- A number as it is written: the digits as bytes, the exponent as a value. -/
structure Numeral where
  negative : Bool
  whole : List UInt8
  fraction : Option (List UInt8)
  exponent : Option Int
  deriving DecidableEq, Repr

def isDigit (byte : UInt8) : Bool :=
  0x30 ≤ byte && byte ≤ 0x39

namespace Numeral

/-! ## Reading -/

/-- The fault of a numeral that the text ends in: a skipped one is taken for malformed. -/
def faultAtEnd : Mode → TextFault
  | .keep => .unfinished
  | .skip => .malformed

/-- One digit or more. -/
def readDigits (mode : Mode) : Reader (List UInt8) := fun bytes =>
  match bytes.takeWhile isDigit, bytes.dropWhile isDigit with
  | [], [] => .error (faultAtEnd mode)
  | [], _ => .error .malformed
  | digits, rest => .ok (digits, rest)

/-- The digits before the point, where a zero stands alone. -/
def readWhole (mode : Mode) : Reader (List UInt8)
  | 0x30 :: rest =>
    match rest with
    | next :: _ => if isDigit next then .error .malformed else .ok ([0x30], rest)
    | [] => .ok ([0x30], [])
  | bytes => readDigits mode bytes

/-- The value of a list of digits. -/
def natOfDigits (digits : List UInt8) : Nat :=
  digits.foldl (fun value digit => 10 * value + (digit.toNat - 0x30)) 0

/-- A sign, if there is one, and an exponent's digits. -/
def readExponent (mode : Mode) : Reader Int := fun bytes => do
  let (negative, bytes) :=
    match bytes with
    | 0x2B :: rest => (false, rest)
    | 0x2D :: rest => (true, rest)
    | _ => (false, bytes)
  let (digits, rest) ← readDigits mode bytes
  return (if negative then -(natOfDigits digits : Int) else natOfDigits digits, rest)

/-- A numeral at the front of the text. -/
def read (mode : Mode) : Reader Numeral := fun bytes => do
  let (negative, bytes) :=
    match bytes with
    | 0x2D :: rest => (true, rest)
    | _ => (false, bytes)
  let (whole, rest) ← readWhole mode bytes
  let (fraction, rest) ←
    match rest with
    | 0x2E :: rest => (readDigits mode rest).map fun (digits, rest) => (some digits, rest)
    | _ => .ok (none, rest)
  let (exponent, rest) ←
    match rest with
    | 0x65 :: rest | 0x45 :: rest =>
      (readExponent mode rest).map fun (exponent, rest) => (some exponent, rest)
    | _ => .ok (none, rest)
  return (⟨negative, whole, fraction, exponent⟩, rest)

/-! ## Value -/

/-- Appends digits to a value while it fits 64 bits; the second part counts the digits left. -/
def accumulate (value : Nat) : List UInt8 → Nat × Nat
  | [] => (value, 0)
  | digit :: rest =>
    let next := 10 * value + (digit.toNat - 0x30)
    if next < UInt64.size then accumulate next rest else (value, rest.length + 1)

/-- The integer `value`, if it fits 64 bits signed or unsigned. -/
def integer? (value : Int) : Option Number :=
  if fits : -9223372036854775808 ≤ value ∧ value < 18446744073709551616 then
    some (.integer value fits)
  else none

/-- The double of a significand and a power of ten, with a sign. -/
def real? (negative : Bool) (significand : Nat) (exponent : Int) : Option Number :=
  (Double.scaled? significand exponent).map fun value =>
    .real (if negative then value.neg else value)

/-- **The number that a numeral stands for.** A negative zero and a negative integer below 64 bits
are doubles. -/
def number? (numeral : Numeral) : Option Number :=
  let (significand, dropped) := accumulate 0 numeral.whole
  match numeral.fraction, numeral.exponent, dropped with
  | none, none, 0 =>
    if !numeral.negative then integer? significand
    else if significand = 0 then real? true 0 0
    else integer? (-significand) <|> real? true significand 0
  | fraction, exponent, dropped =>
    let digits := fraction.getD []
    let (significand, left) := accumulate significand digits
    real? numeral.negative significand
      (exponent.getD 0 + dropped - (digits.length - left : Nat))

end Numeral

end Json

end DebugBridge

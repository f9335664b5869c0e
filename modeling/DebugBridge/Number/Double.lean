/-!
# Number/Double — finite doubles in exact arithmetic

A finite double is a sign, a mantissa and a power of two. Keeping it in these three parts, in the
one form every value has, makes equality decidable and leaves every operation to natural numbers:
the exact result is a ratio, and `Double.ofRatio?` rounds a ratio once.

```
  significand · 10^k   --ofNat?-->   double · (double nearest 10^k)   --ofRatio?-->   double
```

`Double.scaled?` is how decimal text becomes a double. It rounds twice, because the power of ten
is a double itself, so the answer may be a neighbour of the nearest double.
-/

namespace DebugBridge

/-- A finite double, `(-1)^negative · mantissa · 2^exponent`. The mantissa fills 53 bits unless
the exponent is the least one, so every value other than zero has one form and zero has two. -/
structure Double where
  negative : Bool
  mantissa : Nat
  exponent : Int
  mantissa_lt : mantissa < 9007199254740992
  least_le : -1074 ≤ exponent
  le_greatest : exponent ≤ 971
  canonical : 4503599627370496 ≤ mantissa ∨ exponent = -1074
  deriving DecidableEq, Repr

namespace Double

/-- Two to the power 53, which no mantissa reaches. -/
def mantissaBound : Nat := 9007199254740992

/-- Two to the power 52, the least mantissa that fills its bits. -/
def leastFull : Nat := 4503599627370496

/-- Zero with the given sign. -/
def zero (negative : Bool) : Double :=
  ⟨negative, 0, -1074, by decide, by decide, by decide, Or.inr rfl⟩

instance : Inhabited Double := ⟨zero false⟩

/-- The double with these parts, if they are the parts of one. -/
def ofParts? (negative : Bool) (mantissa : Nat) (exponent : Int) : Option Double :=
  if h : mantissa < mantissaBound ∧ -1074 ≤ exponent ∧ exponent ≤ 971 ∧
      (leastFull ≤ mantissa ∨ exponent = -1074) then
    some ⟨negative, mantissa, exponent, h.1, h.2.1, h.2.2.1, h.2.2.2⟩
  else none

/-- The same value with the other sign. -/
def neg (x : Double) : Double :=
  { x with negative := !x.negative }

def isZero (x : Double) : Bool :=
  x.mantissa == 0

/-- **Numeric equality**: both zeros are one value, and apart from them each value has one form. -/
def same (x y : Double) : Bool :=
  (x.isZero && y.isZero) || x == y

/-! ## Rounding -/

/-- `num / den` to the nearest natural number, a half going to the even neighbour. -/
def roundDiv (num den : Nat) : Nat :=
  let floor := num / den
  let rest := num % den
  if 2 * rest < den then floor
  else if den < 2 * rest then floor + 1
  else if floor % 2 = 0 then floor else floor + 1

/-- `num / den` written as a ratio to `2^exponent`. -/
def overPower (num den : Nat) (exponent : Int) : Nat × Nat :=
  if 0 ≤ exponent then (num, den * Nat.pow 2 exponent.toNat)
  else (num * Nat.pow 2 (-exponent).toNat, den)

/-- **The double nearest to `num / den`**, ties to even; nothing when it lies beyond the range.
The first guess of the exponent is at most one too small, which the size of the quotient shows. -/
def ofRatio? (negative : Bool) (num den : Nat) : Option Double :=
  if num = 0 then some (zero negative) else
  let guess : Int := max (-1074) ((Nat.log2 num : Int) - Nat.log2 den - 53)
  let (n, d) := overPower num den guess
  let exponent := if n / d < mantissaBound then guess else guess + 1
  let (n, d) := overPower num den exponent
  let mantissa := roundDiv n d
  if mantissa = mantissaBound then ofParts? negative leastFull (exponent + 1)
  else ofParts? negative mantissa exponent

/-- The double nearest to a natural number. -/
def ofNat? (n : Nat) : Option Double :=
  ofRatio? false n 1

/-- The exact value without its sign, as a ratio. -/
def ratio (x : Double) : Nat × Nat :=
  if 0 ≤ x.exponent then (x.mantissa * Nat.pow 2 x.exponent.toNat, 1)
  else (x.mantissa, Nat.pow 2 (-x.exponent).toNat)

/-- The product, rounded once. -/
def mul? (x y : Double) : Option Double :=
  let (a, b) := x.ratio
  let (c, d) := y.ratio
  ofRatio? (x.negative != y.negative) (a * c) (b * d)

/-- The quotient by a double other than zero, rounded once. -/
def div? (x y : Double) : Option Double :=
  let (a, b) := x.ratio
  let (c, d) := y.ratio
  ofRatio? (x.negative != y.negative) (a * d) (b * c)

/-! ## Decimal scaling -/

/-- The largest power of ten that is a double. -/
def greatestPower : Nat := 308

/-- The double nearest to `10^k`, for `k` up to `greatestPower`. -/
def powerOfTen? (k : Nat) : Option Double :=
  ofNat? (Nat.pow 10 k)

/-- `x / 10^k`, dividing by the largest power of ten as often as `k` asks for it. -/
def shrink? (x : Double) (k : Nat) : Option Double :=
  if k ≤ greatestPower then powerOfTen? k >>= x.div?
  else if x.isZero then some x
  else do
    let power ← powerOfTen? greatestPower
    let y ← x.div? power
    shrink? y (k - greatestPower)
  termination_by k
  decreasing_by all_goals simp_all [greatestPower]; omega

/-- **`significand · 10^exponent` as a double**, nothing when it is beyond the range. The
significand is rounded first, then the power of ten, then their product or quotient. -/
def scaled? (significand : Nat) (exponent : Int) : Option Double := do
  let x ← ofNat? significand
  if exponent < 0 then x.shrink? (-exponent).toNat
  else if exponent.toNat ≤ greatestPower then powerOfTen? exponent.toNat >>= x.mul?
  else if x.isZero then some x
  else none

end Double

end DebugBridge

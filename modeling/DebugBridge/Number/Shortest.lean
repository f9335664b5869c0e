import DebugBridge.Number.Double

/-!
# Number/Shortest — the shortest decimal text of a double

A double is read back from every decimal inside its rounding interval. `Double.shortest` looks at
the decimal grids `10^k` from coarse to fine and stops at the first one that has a point in the
interval: a coarser grid means fewer digits, so no shorter decimal reads back. Of two points on
that grid the nearer wins, and of two equally near ones the even.

The text is positional while the leading digit stands for a power of ten in
`Double.positional`, with `.0` after an integral value, and scientific beyond.
-/

namespace DebugBridge

namespace Double

/-- `a ≤ b` for two ratios. -/
def ratioLe (a b : Nat × Nat) : Bool :=
  a.1 * b.2 ≤ b.1 * a.2

/-- `a < b` for two ratios. -/
def ratioLt (a b : Nat × Nat) : Bool :=
  a.1 * b.2 < b.1 * a.2

/-- `n · base^k` as a ratio. -/
def scaledBy (base n : Nat) (k : Int) : Nat × Nat :=
  if 0 ≤ k then (n * Nat.pow base k.toNat, 1) else (n, Nat.pow base (-k).toNat)

/-- **The reals that round to `x`**, without its sign: from half a step below to half a step
above, where the step below a power of two is half as long. -/
def lowerEnd (x : Double) : Nat × Nat :=
  if x.mantissa = leastFull ∧ -1074 < x.exponent then
    scaledBy 2 (4 * x.mantissa - 1) (x.exponent - 2)
  else scaledBy 2 (2 * x.mantissa - 1) (x.exponent - 1)

@[inherit_doc lowerEnd]
def upperEnd (x : Double) : Nat × Nat :=
  scaledBy 2 (2 * x.mantissa + 1) (x.exponent - 1)

/-- Whether the positive ratio `r` reads back as `x`: the ends belong to the even mantissas. -/
def readsBack (x : Double) (r : Nat × Nat) : Bool :=
  if x.mantissa % 2 = 0 then ratioLe x.lowerEnd r && ratioLe r x.upperEnd
  else ratioLt x.lowerEnd r && ratioLt r x.upperEnd

/-- The point of the grid `10^k` that stands for `x` there, if one reads back. -/
def onGrid? (x : Double) (k : Int) : Option Nat :=
  let (num, den) := x.ratio
  let (num, den) := if 0 ≤ k then (num, den * Nat.pow 10 k.toNat)
    else (num * Nat.pow 10 (-k).toNat, den)
  let below := num / den
  let above := below + 1
  let reads (d : Nat) : Bool := d != 0 && x.readsBack (scaledBy 10 d k)
  match reads below, reads above with
  | true, true => some (roundDiv num den)
  | true, false => some below
  | false, true => some above
  | false, false => none

/-- The first grid at or below `10^k` with a point that reads back, within `steps` grids. -/
def search (x : Double) : Nat → Int → Option (Nat × Int)
  | 0, _ => none
  | steps + 1, k =>
    match x.onGrid? k with
    | some d => some (d, k)
    | none => search x steps (k - 1)

/-- **The shortest decimal** `digits · 10^k` that reads back as `x`, for `x` other than zero. The
grids from the greatest power of ten down to a fraction of the least double are all there is. -/
def shortest (x : Double) : Nat × Int :=
  (x.search 640 308).getD (0, 0)

/-! ## Text -/

/-- The powers of ten at which the leading digit is still written positionally. -/
def positional (leading : Int) : Bool :=
  -5 ≤ leading && leading ≤ 15

/-- The text of `digits · 10^k`. -/
def decimalText (digits : Nat) (k : Int) : String :=
  let text := Nat.toDigits 10 digits
  let leading : Int := k + text.length - 1
  if positional leading then
    if 0 ≤ k then
      String.ofList (text ++ List.replicate k.toNat '0' ++ ['.', '0'])
    else if 0 ≤ leading then
      String.ofList (text.take (leading.toNat + 1) ++ '.' :: text.drop (leading.toNat + 1))
    else
      String.ofList ('0' :: '.' :: List.replicate ((-leading).toNat - 1) '0' ++ text)
  else
    let fraction := if text.length = 1 then [] else '.' :: text.drop 1
    let sign := if leading < 0 then '-' else '+'
    String.ofList (text.take 1 ++ fraction ++ 'e' :: sign :: Nat.toDigits 10 leading.natAbs)

/-- The text of a double: shortest digits, and a sign also on a negative zero. -/
def text (x : Double) : String :=
  let magnitude :=
    if x.isZero then "0.0" else let (digits, k) := x.shortest; decimalText digits k
  if x.negative then "-" ++ magnitude else magnitude

end Double

end DebugBridge

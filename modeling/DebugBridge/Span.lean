/-!
# Span — lengths of time

A span is counted in nanoseconds. Its text uses the largest of the units `s`, `ms`, `µs` and `ns`
of which it has at least one, with as many decimals as it needs.
-/

namespace DebugBridge

/-- A length of time. -/
structure Span where
  nanoseconds : Nat
  deriving DecidableEq, Repr

namespace Span

def ofMilliseconds (n : Nat) : Span := ⟨1000000 * n⟩

def milliseconds (span : Span) : Nat := span.nanoseconds / 1000000

/-- The decimals of `rest / 10 ^ places`, without zeros at the end. -/
def decimals (places rest : Nat) : String :=
  let digits := Nat.toDigits 10 rest
  let padded := List.replicate (places - digits.length) '0' ++ digits
  match (padded.reverse.dropWhile (· == '0')).reverse with
  | [] => ""
  | digits => "." ++ String.ofList digits

/-- `n / 10 ^ places` with a unit. -/
def inUnit (n places : Nat) (unit : String) : String :=
  let whole := Nat.pow 10 places
  toString (n / whole) ++ decimals places (n % whole) ++ unit

/-- The text of a span. -/
def text (span : Span) : String :=
  let n := span.nanoseconds
  if 1000000000 ≤ n then inUnit n 9 "s"
  else if 1000000 ≤ n then inUnit n 6 "ms"
  else if 1000 ≤ n then inUnit n 3 "µs"
  else inUnit n 0 "ns"

end Span

end DebugBridge

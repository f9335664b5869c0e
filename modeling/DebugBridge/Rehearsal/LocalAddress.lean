import DebugBridge.Text.Blank
import DebugBridge.Text.Hex

/-!
# Rehearsal/LocalAddress — the internet addresses of one machine

A machine without a network has the addresses that lead back to it. They are written in several
ways, and each has one text of its own.

```
  127.0.0.1   127.1   0x7f.1   0177.0.0.01      parts of one byte, the last one takes the rest
  ::ffff:127.0.0.1   0:0:0:0:0:ffff:7f00:1      the same address among those of version 6
  ::   0::0   ::%3                              every address of version 6
```
-/

namespace DebugBridge

/-- The value of digits in a base up to sixteen; nothing for no digits. -/
def digitsValue? (base : Nat) (digits : List Char) : Option Nat :=
  if digits.isEmpty then none
  else digits.foldlM (fun value c => do
    let digit ← Hex.value? c
    if digit < base then some (base * value + digit) else none) 0

/-! ## Version 4 -/

/-- An internet address of version 4. -/
structure Ipv4 where
  a : UInt8
  b : UInt8
  c : UInt8
  d : UInt8
  deriving DecidableEq, Repr

namespace Ipv4

def ofNat (n : Nat) : Ipv4 :=
  ⟨.ofNat (n / 0x1000000), .ofNat (n / 0x10000), .ofNat (n / 0x100), .ofNat n⟩

def text (address : Ipv4) : String :=
  s!"{address.a}.{address.b}.{address.c}.{address.d}"

/-- The address that parts make up in `size` bytes: each part is one byte, the last one all bytes
that are left. -/
def ofParts? : (size : Nat) → List Nat → Option Nat
  | 0, _ | _, [] => none
  | size, [last] => if last < Nat.pow 256 size then some last else none
  | size + 1, part :: parts =>
    if part < 256 then (ofParts? size parts).map (part * Nat.pow 256 size + ·) else none

/-- A part in decimal digits, in octal digits after a zero, or in hexadecimal digits after `0x`. -/
def part? : List Char → Option Nat
  | '0' :: 'x' :: digits | '0' :: 'X' :: digits => digitsValue? 16 digits
  | '0' :: digits => digitsValue? 8 ('0' :: digits)
  | digits => digitsValue? 10 digits

/-- The number of an address in one to four parts. -/
def loose? (text : String) : Option Nat := do
  ofParts? 4 (← (text.splitOn ".").mapM fun part => part? part.toList)

/-- A byte in decimal digits without a leading zero. -/
def byte? : List Char → Option Nat
  | '0' :: _ :: _ => none
  | digits => (digitsValue? 10 digits).filter (· < 256)

/-- The number of an address in four decimal bytes. -/
def strict? (text : String) : Option Nat := do
  let bytes ← (text.splitOn ".").mapM fun byte => byte? byte.toList
  if bytes.length = 4 then ofParts? 4 bytes else none

/-- Whether an address leads to this machine, or to a group that it can be part of: those of this
network, the loopback, the multicast groups and the broadcast. -/
def isLocal (address : Ipv4) : Bool :=
  address.a == 0 || address.a == 127 || (224 ≤ address.a && address.a < 240) ||
    address == ⟨255, 255, 255, 255⟩

/-- Whether an address is the machine itself. -/
def isLoopback (address : Ipv4) : Bool :=
  address.a == 127 || address == ⟨0, 0, 0, 0⟩

end Ipv4

/-! ## Version 6 -/

namespace Ipv6

/-- A group in up to four hexadecimal digits. -/
def group? (text : String) : Option Nat :=
  if text.length ≤ 4 then digitsValue? 16 text.toList else none

/-- The groups between colons. If they end the address, the last two may be written as an address of
version 4. -/
def groups? (ends : Bool) : List String → Option (List Nat)
  | [] => some []
  | [last] =>
    match if ends then Ipv4.strict? last else none with
    | some n => some [n / 0x10000, n % 0x10000]
    | none => (group? last).map ([·])
  | group :: rest => do return (← group? group) :: (← groups? ends rest)

/-- The groups before or after the gap. -/
def side? (ends : Bool) (text : String) : Option (List Nat) :=
  if text.isEmpty then some [] else groups? ends (text.splitOn ":")

/-- The eight groups of an address. A double colon stands for one zero group or more. -/
def allGroups? (text : String) : Option (List Nat) :=
  match text.splitOn "::" with
  | [text] => (side? true text).filter (·.length = 8)
  | [before, after] => do
    let before ← side? false before
    let after ← side? true after
    if before.length + after.length < 8 then
      some (before ++ List.replicate (8 - before.length - after.length) 0 ++ after)
    else none
  | _ => none

/-- The number of an address, which may be followed by the number of a zone. -/
def number? (text : String) : Option Nat := do
  let (address, zone) ←
    match text.toList.span (· != '%') with
    | (address, []) => some (address, 0)
    | (address, _ :: zone) => (digitsValue? 10 zone).map (address, ·)
  if zone < UInt32.size then
    some ((← allGroups? (String.ofList address)).foldl (fun n group => 0x10000 * n + group) 0)
  else none

end Ipv6

/-! ## Addresses of this machine -/

/-- An address at which this machine can be reached. -/
inductive LocalAddress where
  | v4 (address : Ipv4)
  /-- An address of version 4 among those of version 6. -/
  | mapped (address : Ipv4)
  /-- Every address of version 6. -/
  | any
  deriving DecidableEq, Repr

namespace LocalAddress

def text : LocalAddress → String
  | v4 address => address.text
  | mapped address => "::ffff:" ++ address.text
  | any => "::"

/-- The address of version 4 with a number. -/
def ofNumber4? (n : Nat) : Option LocalAddress :=
  if (Ipv4.ofNat n).isLocal then some (v4 (.ofNat n)) else none

/-- The address of version 6 with a number. The loopback of version 6 is not among those of this
machine. -/
def ofNumber6? (n : Nat) : Option LocalAddress :=
  if n = 0 then some any
  else if n / UInt32.size = 0xFFFF ∧ (Ipv4.ofNat n).isLocal then some (mapped (.ofNat n))
  else none

/-- **The address that a host is known by**, which is written as a number or is called
`localhost`. -/
def ofHost? (host : String) : Option LocalAddress :=
  match Ipv4.loose? host, Ipv6.number? host with
  | some n, _ => ofNumber4? n
  | none, some n => ofNumber6? n
  | none, none => if Text.lowerAscii host = "localhost" then some (v4 ⟨127, 0, 0, 1⟩) else none

end LocalAddress

end DebugBridge

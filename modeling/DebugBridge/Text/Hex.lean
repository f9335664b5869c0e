/-!
# Text/Hex — hexadecimal digits

Digits are written in small letters and read in either case. A byte takes two digits, the high half
first, and a list of bytes the digits of its bytes in order.
-/

namespace DebugBridge

namespace Hex

/-- The digit of a value below sixteen. -/
def digit (n : Nat) : Char :=
  if n < 10 then Char.ofNat (0x30 + n) else Char.ofNat (0x57 + n)

/-- The value of a digit, in either case. -/
def value? (c : Char) : Option Nat :=
  if '0' ≤ c ∧ c ≤ '9' then some (c.toNat - 0x30)
  else if 'a' ≤ c ∧ c ≤ 'f' then some (c.toNat - 0x57)
  else if 'A' ≤ c ∧ c ≤ 'F' then some (c.toNat - 0x37)
  else none

theorem value?_digit {n : Nat} (h : n < 16) : value? (digit n) = some n := by
  have : ∀ m : Fin 16, value? (digit m) = some m.val := by decide
  exact this ⟨n, h⟩

/-- The two digits of a byte. -/
def ofByte (byte : UInt8) : List Char :=
  [digit (byte.toNat / 16), digit (byte.toNat % 16)]

/-- The digits of a list of bytes. -/
def ofBytes (bytes : List UInt8) : List Char :=
  bytes.flatMap ofByte

/-- The bytes that a list of digits stands for; nothing for an odd number of digits or for any
other character. -/
def toBytes? : List Char → Option (List UInt8)
  | [] => some []
  | [_] => none
  | a :: b :: rest => do
    let high ← value? a
    let low ← value? b
    let bytes ← toBytes? rest
    return UInt8.ofNat (16 * high + low) :: bytes

theorem toBytes?_ofBytes (bytes : List UInt8) : toBytes? (ofBytes bytes) = some bytes := by
  induction bytes with
  | nil => rfl
  | cons byte rest ih =>
    have h := byte.toNat_lt
    have split : 16 * (byte.toNat / 16) + byte.toNat % 16 = byte.toNat := Nat.div_add_mod ..
    rw [ofBytes, List.flatMap_cons, ← ofBytes]
    simp only [ofByte, List.cons_append, List.nil_append, toBytes?, ih,
      value?_digit (show byte.toNat / 16 < 16 by omega),
      value?_digit (show byte.toNat % 16 < 16 by omega), Option.bind_eq_bind, Option.bind_some,
      split, UInt8.ofNat_toNat]
    rfl

/-- The digits of a number, with no leading zero but at least one digit. -/
def ofNat (n : Nat) : List Char :=
  Nat.toDigits 16 n

end Hex

end DebugBridge

import DebugBridge.Address
import DebugBridge.Json.Shape
import DebugBridge.Text.Utf8

/-!
# StorageSlot — 256-bit words as hexadecimal text

A storage slot is given as an unsigned word or as hexadecimal digits, with or without `0x`, in any
case, with any number of leading zeros and with underscores anywhere among the digits. Digits are
taken from the end of the text, each with sixteen times the weight of the one before, so of several
faults the one nearest to the end counts. No digits at all stand for zero.
-/

namespace DebugBridge

/-- A word of contract storage, or the number of a slot. -/
abbrev StorageWord := BitVec 256

namespace StorageWord

/-- The text of a word: `0x` and its digits without leading zeros. -/
def text (word : StorageWord) : String :=
  String.ofList ('0' :: 'x' :: Hex.ofNat word.toNat)

/-- Adds digits from the end of a text, the first with the weight `16 ^ place`, to `value`. -/
def ofDigits (value : Nat) (place : Nat) : List UInt8 → Except SlotFault Nat
  | [] => .ok value
  | byte :: rest =>
    if byte = 0x5F then ofDigits value place rest
    else
      match Hex.value? (Char.ofNat byte.toNat) with
      | none => .error (.digit (Char.ofNat byte.toNat))
      | some digit =>
        let value := value + digit * Nat.pow 16 place
        if value < Nat.pow 2 256 then ofDigits value (place + 1) rest else .error .tooLarge

/-- **The word of a text.** -/
def ofText (text : String) : Except ShapeFault StorageWord :=
  let trimmed := Text.trim text
  let digits := String.ofList (AddressKey.withoutPrefix trimmed.toList)
  match ofDigits 0 0 (Text.utf8 digits).reverse with
  | .ok value => .ok (BitVec.ofNat 256 value)
  | .error fault => .error (.slot trimmed fault)

/-- The word of a value: an unsigned word or a text. -/
def ofJson : Json → Except ShapeFault StorageWord
  | .string text => ofText text
  | .number n =>
    match n.word? with
    | some word => .ok (BitVec.ofNat 256 word.toNat)
    | none => .error (.wrongType (.number n) expected)
  | value => value.wrongType expected
where
  expected := "a storage slot as an unsigned integer or hex string"

end StorageWord

end DebugBridge

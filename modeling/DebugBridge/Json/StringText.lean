import DebugBridge.Json.Numeral
import DebugBridge.Text.Utf8

/-!
# Json/StringText — strings as they are written

The inside of a string is a sequence of pieces up to the closing quote: plain bytes, letter escapes,
and code units of four hexadecimal digits, of which a leading surrogate needs a trailing one after
it. The bytes of all pieces together must be well-formed text when the string is kept.
-/

namespace DebugBridge

open Text (ofUtf8?)

namespace Json

/-- The byte that a letter after a backslash stands for. -/
def letterEscape? (letter : UInt8) : Option UInt8 :=
  match letter with
  | 0x22 => some 0x22
  | 0x5C => some 0x5C
  | 0x2F => some 0x2F
  | 0x62 => some 0x08
  | 0x66 => some 0x0C
  | 0x6E => some 0x0A
  | 0x72 => some 0x0D
  | 0x74 => some 0x09
  | _ => none

/-- The value of a byte that is a hexadecimal digit. -/
def hexValue? (byte : UInt8) : Option Nat :=
  Hex.value? (Char.ofNat byte.toNat)

/-- Four hexadecimal digits. The text must still have four bytes, whatever they are. -/
def readUnit : Reader Nat
  | a :: b :: c :: d :: rest =>
    match hexValue? a, hexValue? b, hexValue? c, hexValue? d with
    | some a, some b, some c, some d => .ok (4096 * a + 256 * b + 16 * c + d, rest)
    | _, _, _, _ => .error .malformed
  | _ => .error .unfinished

def isLeading (unit : Nat) : Bool :=
  0xD800 ≤ unit && unit ≤ 0xDBFF

def isTrailing (unit : Nat) : Bool :=
  0xDC00 ≤ unit && unit ≤ 0xDFFF

/-- The trailing surrogate that must follow a leading one. -/
def readTrailing : Reader Nat
  | [] | [0x5C] => .error .unfinished
  | 0x5C :: 0x75 :: rest => do
    let (unit, rest) ← readUnit rest
    if isTrailing unit then .ok (unit, rest) else .error .malformed
  | _ => .error .malformed

/-- What follows a backslash. -/
def readEscape (mode : Mode) : Reader (List UInt8)
  | [] => .error .unfinished
  | 0x75 :: rest => do
    let (unit, rest) ← readUnit rest
    match mode with
    | .skip => .ok ([], rest)
    | .keep =>
      if isTrailing unit then .error .malformed
      else if isLeading unit then do
        let (trailing, rest) ← readTrailing rest
        let code := 0x10000 + 0x400 * (unit - 0xD800) + (trailing - 0xDC00)
        .ok (String.utf8EncodeChar (Char.ofNat code), rest)
      else .ok (String.utf8EncodeChar (Char.ofNat unit), rest)
  | letter :: rest =>
    match letterEscape? letter with
    | some byte => .ok ([byte], rest)
    | none => .error .malformed

/-- The next piece of a string: its bytes, or nothing for the closing quote. -/
def readPiece (mode : Mode) : Reader (Option (List UInt8))
  | [] => .error .unfinished
  | 0x22 :: rest => .ok (none, rest)
  | 0x5C :: rest => (readEscape mode rest).map fun (bytes, rest) => (some bytes, rest)
  | byte :: rest => if byte < 0x20 then .error .malformed else .ok (some [byte], rest)

/-- The pieces up to the closing quote, after the bytes `before` in reverse. Of `size` pieces at
most, which no text exceeds that is not longer. -/
def readPieces (mode : Mode) : Nat → List UInt8 → Reader (List UInt8)
  | 0, _, _ => .error .unfinished
  | size + 1, before, bytes => do
    match ← readPiece mode bytes with
    | (none, rest) => .ok (before.reverse, rest)
    | (some piece, rest) => readPieces mode size (piece.reverse ++ before) rest

/-- A string whose opening quote has been read. -/
def readString (mode : Mode) (size : Nat) : Reader String := fun bytes => do
  let (inside, rest) ← readPieces mode size [] bytes
  match mode with
  | .skip => .ok ("", rest)
  | .keep =>
    match ofUtf8? inside with
    | some text => .ok (text, rest)
    | none => .error .malformed

end Json

end DebugBridge

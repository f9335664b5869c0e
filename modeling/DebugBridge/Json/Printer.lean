import DebugBridge.Json.Basic
import DebugBridge.Text.Hex
import DebugBridge.Text.Utf8

/-!
# Json/Printer — the compact text of a tree

A tree has one text: no blanks, members in the order of the tree, and in strings only what must be
escaped. A quote and a backslash follow a backslash, five controls have letters, the other controls
are given by their code, and every other byte stands for itself. No byte of a longer UTF-8 sequence
is among the escaped ones, so strings are escaped byte by byte.

Each printer puts its bytes in front of what follows.
-/

namespace DebugBridge

open Text (utf8)

namespace Json

/-- A byte of a string as it is written. -/
def escapeByte (byte : UInt8) : List UInt8 :=
  if byte = 0x22 then [0x5C, 0x22]
  else if byte = 0x5C then [0x5C, 0x5C]
  else if byte = 0x08 then [0x5C, 0x62]
  else if byte = 0x09 then [0x5C, 0x74]
  else if byte = 0x0A then [0x5C, 0x6E]
  else if byte = 0x0C then [0x5C, 0x66]
  else if byte = 0x0D then [0x5C, 0x72]
  else if byte < 0x20 then
    [0x5C, 0x75, 0x30, 0x30] ++ (Hex.ofByte byte).map fun c => UInt8.ofNat c.toNat
  else [byte]

/-- The bytes of a string, between quotes. -/
def printString (text : String) (rest : List UInt8) : List UInt8 :=
  0x22 :: (utf8 text).flatMap escapeByte ++ 0x22 :: rest

/-- A key and the colon after it. -/
def printKey (key : String) (rest : List UInt8) : List UInt8 :=
  printString key (0x3A :: rest)

mutual

/-- **The bytes of a tree**, in front of `rest`. -/
def print : Json → List UInt8 → List UInt8
  | .null, rest => utf8 "null" ++ rest
  | .bool true, rest => utf8 "true" ++ rest
  | .bool false, rest => utf8 "false" ++ rest
  | .number value, rest => utf8 value.text ++ rest
  | .string text, rest => printString text rest
  | .array [], rest => 0x5B :: 0x5D :: rest
  | .array (item :: items), rest => 0x5B :: item.print (printItems items (0x5D :: rest))
  | .object [], rest => 0x7B :: 0x7D :: rest
  | .object ((key, value) :: members), rest =>
    0x7B :: printKey key (value.print (printMembers members (0x7D :: rest)))
  termination_by structural v => v

/-- Further items of an array, each after a comma. -/
def printItems : List Json → List UInt8 → List UInt8
  | [], rest => rest
  | item :: items, rest => 0x2C :: item.print (printItems items rest)
  termination_by structural items => items

/-- Further members of an object, each after a comma. -/
def printMembers : List (String × Json) → List UInt8 → List UInt8
  | [], rest => rest
  | (key, value) :: members, rest =>
    0x2C :: printKey key (value.print (printMembers members rest))
  termination_by structural members => members

end

/-- The text of a tree. -/
def bytes (value : Json) : List UInt8 :=
  value.print []

end Json

end DebugBridge

import DebugBridge.Json.StringText

/-!
# Json/Reader — trees from text

A value is read off the front of a text and the rest is handed on. Between tokens any number of
spaces, tabs and line ends may stand. Of members with one key the last one stays, and the members of
an object come out in the order of their keys.

Reading is by recursion on `room`, the number of containers that may still be opened inside each
other. The items of one container are a loop within `size` rounds, where `size` is the length of the
whole text, so the loop never runs out before the text does.
-/

namespace DebugBridge

namespace Json

def isSpace (byte : UInt8) : Bool :=
  byte == 0x20 || byte == 0x09 || byte == 0x0A || byte == 0x0D

/-- The text from its first byte that is no space. -/
def skipSpaces (bytes : List UInt8) : List UInt8 :=
  bytes.dropWhile isSpace

/-- The rest of a keyword. -/
def readKeyword (value : Json) : List UInt8 → Reader Json
  | [], rest => .ok (value, rest)
  | _ :: _, [] => .error .unfinished
  | expected :: word, byte :: rest =>
    if byte = expected then readKeyword value word rest else .error .malformed

/-- A number at the front of the text. -/
def readNumber (mode : Mode) : Reader Json := fun bytes => do
  let (numeral, rest) ← Numeral.read mode bytes
  match mode with
  | .skip => .ok (.null, rest)
  | .keep =>
    match numeral.number? with
    | some value => .ok (.number value, rest)
    | none => .error .malformed

/-- A value at the front of the text, where `array` and `object` read what follows an opening
bracket or brace. -/
def readValueWith (mode : Mode) (size : Nat) (array object : Reader Json) :
    Reader Json := fun bytes =>
  match skipSpaces bytes with
  | [] => .error .unfinished
  | 0x6E :: rest => readKeyword .null [0x75, 0x6C, 0x6C] rest
  | 0x74 :: rest => readKeyword (.bool true) [0x72, 0x75, 0x65] rest
  | 0x66 :: rest => readKeyword (.bool false) [0x61, 0x6C, 0x73, 0x65] rest
  | 0x22 :: rest => (readString mode size rest).map fun (text, rest) => (.string text, rest)
  | 0x5B :: rest => array rest
  | 0x7B :: rest => object rest
  | byte :: rest =>
    if byte == 0x2D || isDigit byte then readNumber mode (byte :: rest) else .error .malformed

/-- The colon between a key and its value. -/
def readColon (bytes : List UInt8) : Except TextFault (List UInt8) :=
  match skipSpaces bytes with
  | [] => .error .unfinished
  | 0x3A :: rest => .ok rest
  | _ => .error .malformed

/-- A key, without the colon. -/
def readKey (mode : Mode) (size : Nat) : Reader String := fun bytes =>
  match skipSpaces bytes with
  | [] => .error .unfinished
  | 0x22 :: rest => readString mode size rest
  | _ => .error .malformed

/-- One item or more, up to the closing bracket, after the items `before` in reverse. -/
def readItems (item : Reader Json) : Nat → List Json → Reader (List Json)
  | 0, _, _ => .error .unfinished
  | size + 1, before, bytes => do
    let (value, rest) ← item bytes
    match skipSpaces rest with
    | [] => .error .unfinished
    | 0x2C :: rest => readItems item size (value :: before) rest
    | 0x5D :: rest => .ok ((value :: before).reverse, rest)
    | _ => .error .malformed

/-- An array whose opening bracket has been read. -/
def readArray (size : Nat) (item : Reader Json) : Reader Json := fun bytes =>
  match skipSpaces bytes with
  | 0x5D :: rest => .ok (.array [], rest)
  | rest => (readItems item size [] rest).map fun (items, rest) => (.array items, rest)

/-- One member or more, up to the closing brace, on top of the members `before`. -/
def readMembers (key : Reader String) (item : Reader Json) :
    Nat → KeyMap Json → Reader (KeyMap Json)
  | 0, _, _ => .error .unfinished
  | size + 1, before, bytes => do
    let (name, rest) ← key bytes
    let rest ← readColon rest
    let (value, rest) ← item rest
    let members := before.insert name value
    match skipSpaces rest with
    | [] => .error .unfinished
    | 0x2C :: rest => readMembers key item size members rest
    | 0x7D :: rest => .ok (members, rest)
    | _ => .error .malformed

/-- An object whose opening brace has been read. -/
def readObject (mode : Mode) (size : Nat) (item : Reader Json) : Reader Json := fun bytes =>
  match skipSpaces bytes with
  | 0x7D :: rest => .ok (.object [], rest)
  | rest =>
    (readMembers (readKey mode size) item size .empty rest).map fun (members, rest) =>
      (.ofMap members, rest)

/-- **A value at the front of the text**, with at most `room` containers around each other. -/
def readValue (mode : Mode) (size : Nat) : (room : Nat) → Reader Json
  | 0 => readValueWith mode size (fun _ => .error .malformed) (fun _ => .error .malformed)
  | room + 1 =>
    readValueWith mode size (readArray size (readValue mode size room))
      (readObject mode size (readValue mode size room))

/-- Skips a value at the front of the text. -/
def skipValue (size : Nat) (bytes : List UInt8) : Except TextFault (List UInt8) :=
  (readValue .skip size size bytes).map (·.2)

/-- Reads a whole text, after which only spaces may stand. -/
def readAll {α : Type} (read : Reader α) (bytes : List UInt8) :
    Except TextFault α := do
  let (value, rest) ← read bytes
  if (skipSpaces rest).isEmpty then .ok value else .error .malformed

/-- **The tree of a text**, however deep it nests. -/
def ofBytes (bytes : List UInt8) : Except TextFault Json :=
  readAll (readValue .keep bytes.length bytes.length) bytes

end Json

end DebugBridge

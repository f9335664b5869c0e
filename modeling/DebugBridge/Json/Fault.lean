import DebugBridge.Json.Basic
import DebugBridge.Text.Quoted

/-!
# Json/Fault — why a text or a tree is refused

A text is refused because it ends too early, because it is no JSON, or because the value has the
wrong shape. A shape fault names what was found and what was expected; its message is the one that a
reply carries.
-/

namespace DebugBridge

/-- What stands where something else was expected. -/
inductive Found where
  | null
  | bool (value : Bool)
  | number (value : Number)
  | string (text : String)
  | sequence
  | map
  deriving DecidableEq, Repr

namespace Found

/-- What a tree is found to be. -/
def ofJson : Json → Found
  | .null => .null
  | .bool value => .bool value
  | .number value => .number value
  | .string text => .string text
  | .array _ => .sequence
  | .object _ => .map

def message : Found → String
  | .null => "null"
  | .bool value => s!"boolean `{value}`"
  | .number (.integer value _) => s!"integer `{value}`"
  | .number (.real value) => s!"floating point `{value.text}`"
  | .string text => "string " ++ Text.quoted text
  | .sequence => "sequence"
  | .map => "map"

end Found

/-- Why the text of a storage slot is no slot. -/
inductive SlotFault where
  | digit (c : Char)
  | tooLarge
  deriving DecidableEq, Repr

namespace SlotFault

def message : SlotFault → String
  | .digit c => s!"invalid digit: {c}"
  | .tooLarge => "the value is too large to fit the target type"

end SlotFault

/-- **A value of the wrong shape.** -/
inductive ShapeFault where
  /-- One kind of value stands where another was expected. -/
  | wrongType (found : Found) (expected : String)
  /-- A number of the right kind is out of range. -/
  | wrongValue (found : Found) (expected : String)
  /-- A record written as an array has too few elements. -/
  | tooShort (length : Nat) (record : String) (fields : Nat)
  | missingField (field : String)
  | duplicateField (field : String)
  | unknownVariant (name : String) (known : List String)
  /-- A value is none of the alternatives of a choice. -/
  | noAlternative (choice : String)
  | slot (text : String) (fault : SlotFault)
  deriving DecidableEq, Repr

namespace ShapeFault

/-- The names that were expected, as a message lists them. -/
def listed (names : List String) : String :=
  match names.map fun name => s!"`{name}`" with
  | [a] => a
  | [a, b] => s!"{a} or {b}"
  | texts => "one of " ++ ", ".intercalate texts

def message : ShapeFault → String
  | .wrongType found expected => s!"invalid type: {found.message}, expected {expected}"
  | .wrongValue found expected => s!"invalid value: {found.message}, expected {expected}"
  | .tooShort length record fields =>
    s!"invalid length {length}, expected struct {record} with {fields} elements"
  | .missingField field => s!"missing field `{field}`"
  | .duplicateField field => s!"duplicate field `{field}`"
  | .unknownVariant name known => s!"unknown variant `{name}`, expected {listed known}"
  | .noAlternative choice => s!"data did not match any variant of untagged enum {choice}"
  | .slot text fault => s!"invalid storage slot `{text}`: {fault.message}"

end ShapeFault

/-- **Why a text is refused.** -/
inductive TextFault where
  /-- The text ends before the value does. -/
  | unfinished
  /-- The text is no JSON. -/
  | malformed
  /-- The value has the wrong shape. -/
  | shape (fault : ShapeFault)
  deriving DecidableEq, Repr

end DebugBridge

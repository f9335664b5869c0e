import DebugBridge.Json.Fault

/-!
# Json/Shape — trees of an expected shape

Each function takes the value of one shape out of a tree, and says what it found where the shape is
another one.
-/

namespace DebugBridge

namespace Json

/-- The fault of a tree that stands where `expected` should. -/
def wrongType {α : Type} (expected : String) (value : Json) : Except ShapeFault α :=
  .error (.wrongType (.ofJson value) expected)

def asText : Json → Except ShapeFault String
  | .string text => .ok text
  | value => value.wrongType "a string"

def asFlag : Json → Except ShapeFault Bool
  | .bool flag => .ok flag
  | value => value.wrongType "a boolean"

/-- An unsigned word. A negative integer has the right type and the wrong value. -/
def asWord : Json → Except ShapeFault UInt64
  | .number n =>
    match n.word?, n with
    | some word, _ => .ok word
    | none, .integer .. => .error (.wrongValue (.number n) "u64")
    | none, .real _ => .error (.wrongType (.number n) "u64")
  | value => value.wrongType "u64"

/-- A list of unsigned words; the first item that is none decides. -/
def asWords : Json → Except ShapeFault (List UInt64)
  | .array items => items.mapM asWord
  | value => value.wrongType "a sequence"

def asNull (expected : String) : Json → Except ShapeFault Unit
  | .null => .ok ()
  | value => value.wrongType expected

/-- A value that may be null instead. -/
def asOption {α : Type} (shape : Json → Except ShapeFault α) :
    Json → Except ShapeFault (Option α)
  | .null => .ok none
  | value => (shape value).map some

end Json

end DebugBridge

import DebugBridge.Json.Reader
import DebugBridge.Json.Shape

/-!
# Json/Record — values of an expected shape from text

A reader that knows what to expect stops at the first thing that is wrong, be it the layout or the
shape. A scalar of the wrong type is read to its end before it is refused; an array or an object is
refused at its opening bracket.

A record is written as an object, whose members may stand in any order and among unknown ones, or as
an array of its fields in order. `Record.read` reads both.

```
  object:  {"b":…, "x":…, "a":…}    unknown `x` is skipped, a missing field shows at the brace
  array:   [a, b]                   fields at the end that have a default may be left out
```
-/

namespace DebugBridge

namespace Json

/-! ## Scalars -/

/-- A scalar, or an array or object read no further than its opening bracket. -/
def readShallow (size : Nat) : Reader Json :=
  readValueWith .keep size (fun rest => .ok (.array [], rest)) (fun rest => .ok (.object [], rest))

/-- A scalar of an expected shape. -/
def readScalar {α : Type} (size : Nat) (shape : Json → Except ShapeFault α) :
    Reader α := fun bytes => do
  let (value, rest) ← readShallow size bytes
  match shape value with
  | .ok value => .ok (value, rest)
  | .error fault => .error (.shape fault)

/-- A value that may be null instead. -/
def readOption {α : Type} (read : Reader α) : Reader (Option α) := fun bytes =>
  match skipSpaces bytes with
  | 0x6E :: rest => (readKeyword .null [0x75, 0x6C, 0x6C] rest).map fun (_, rest) => (none, rest)
  | bytes => (read bytes).map fun (value, rest) => (some value, rest)

/-- One of the values with a name. -/
def named {α : Type} (variants : List (String × α)) (name : String) : Except TextFault α :=
  match variants.lookup name with
  | some variant => .ok variant
  | none => .error (.shape (.unknownVariant name (variants.map (·.1))))

/-- **A variant by its name**: the name as a string, or as the only key of an object with the value
null. -/
def readVariant {α : Type} (size : Nat) (variants : List (String × α)) :
    Reader α := fun bytes => do
  match skipSpaces bytes with
  | [] => .error .unfinished
  | 0x22 :: rest =>
    let (name, rest) ← readString .keep size rest
    let variant ← named variants name
    .ok (variant, rest)
  | 0x7B :: rest =>
    let (name, rest) ← readKey .keep size rest
    let variant ← named variants name
    let rest ← readColon rest
    let (_, rest) ← readScalar size (asNull "unit") rest
    match skipSpaces rest with
    | [] => .error .unfinished
    | 0x7D :: rest => .ok (variant, rest)
    | _ => .error .malformed
  | _ => .error .malformed

/-! ## Records -/

/-- One field of a record that is read into `σ`. -/
structure Field (σ : Type) where
  name : String
  /-- Whether an array may end before this field. -/
  trailing : Bool
  /-- Whether the field has been read already. -/
  given : σ → Bool
  read : σ → Reader σ

/-- A field that is kept in an optional place. -/
def Field.optional {σ α : Type} (name : String) (trailing : Bool) (get : σ → Option α)
    (set : α → σ → σ) (read : Reader α) : Field σ where
  name := name
  trailing := trailing
  given := fun state => (get state).isSome
  read := fun state bytes => (read bytes).map fun (value, rest) => (set value state, rest)

/-- A record `ρ` and the fields that it is read from, which are collected in `σ`. -/
structure Record (σ ρ : Type) where
  name : String
  fields : List (Field σ)
  start : σ
  /-- The record of the fields that were given. It names the first one that is missing. -/
  finish : σ → Except ShapeFault ρ

namespace Record

variable {σ ρ : Type}

/-- One member of a record: a field that was not given yet, or an unknown member. -/
def readMember (record : Record σ ρ) (size : Nat) (state : σ) : Reader σ := fun bytes => do
  let (name, rest) ← readKey .keep size bytes
  match record.fields.find? (·.name == name) with
  | some field =>
    if field.given state then .error (.shape (.duplicateField name))
    else
      let rest ← readColon rest
      field.read state rest
  | none =>
    let rest ← readColon rest
    let rest ← skipValue size rest
    .ok (state, rest)

/-- One member or more, up to the closing brace. -/
def readMembers (record : Record σ ρ) (size : Nat) : Nat → σ → Reader σ
  | 0, _, _ => .error .unfinished
  | rounds + 1, state, bytes => do
    let (state, rest) ← record.readMember size state bytes
    match skipSpaces rest with
    | [] => .error .unfinished
    | 0x2C :: rest => readMembers record size rounds state rest
    | 0x7D :: rest => .ok (state, rest)
    | _ => .error .malformed

/-- The object form, after its opening brace. -/
def readObject (record : Record σ ρ) (size : Nat) : Reader σ := fun bytes =>
  match skipSpaces bytes with
  | 0x7D :: rest => .ok (record.start, rest)
  | rest => record.readMembers size size record.start rest

/-- The closing bracket after the last field. -/
def readClose (bytes : List UInt8) : Except TextFault (List UInt8) :=
  match skipSpaces bytes with
  | [] => .error .unfinished
  | 0x5D :: rest => .ok rest
  | _ => .error .malformed

/-- The fields of the array form from the one with number `index` on, up to the closing bracket. -/
def readFields (record : Record σ ρ) : (index : Nat) → List (Field σ) → σ → Reader σ
  | _, [], state, bytes => (readClose bytes).map fun rest => (state, rest)
  | index, field :: fields, state, bytes => do
    match skipSpaces bytes, index with
    | [], _ => .error .unfinished
    | 0x5D :: rest, _ =>
      if field.trailing then .ok (state, rest)
      else .error (.shape (.tooShort index record.name record.fields.length))
    | bytes, 0 =>
      let (state, rest) ← field.read state bytes
      readFields record 1 fields state rest
    | 0x2C :: rest, index =>
      match skipSpaces rest with
      | [] => .error .unfinished
      | 0x5D :: _ => .error .malformed
      | bytes =>
        let (state, rest) ← field.read state bytes
        readFields record (index + 1) fields state rest
    | _, _ => .error .malformed

/-- **A record in either form.** -/
def read (record : Record σ ρ) (size : Nat) : Reader ρ := fun bytes => do
  let (state, rest) ←
    match skipSpaces bytes with
    | 0x5B :: rest => record.readFields 0 record.fields record.start rest
    | 0x7B :: rest => record.readObject size rest
    | bytes => readScalar size (wrongType s!"struct {record.name}") bytes
  match record.finish state with
  | .ok value => .ok (value, rest)
  | .error fault => .error (.shape fault)

end Record

end Json

end DebugBridge

import DebugBridge.Address
import DebugBridge.Json.Record

/-!
# Breakpoint — places where the debugger wants to stop

A breakpoint stands at a program counter of a contract. The debugger gives it an id, a number or a
text, and may restrict it to one flavour of code: the creation code of a contract or its runtime
code.
-/

namespace DebugBridge

/-- The id of a breakpoint. The number 7 and the text "7" are different ids. -/
inductive BreakpointId where
  | number (value : UInt64)
  | text (value : String)
  deriving DecidableEq, Repr

/-- The flavour of code that a breakpoint is restricted to. -/
inductive CodeFlavor where
  | creation
  | runtime
  deriving DecidableEq, Repr

/-- A breakpoint; without a scope it stands in both flavours of code. -/
structure Breakpoint where
  id : BreakpointId
  address : AddressKey
  pc : UInt64
  scope : Option CodeFlavor
  deriving DecidableEq, Repr

namespace BreakpointId

def display : BreakpointId → String
  | .number value => toString value.toNat
  | .text value => value

def toJson : BreakpointId → Json
  | .number value => .ofWord value
  | .text value => .string value

/-- The id of a value: an unsigned word or a text. -/
def ofJson : Json → Except ShapeFault BreakpointId
  | .number n =>
    match n.word? with
    | some word => .ok (.number word)
    | none => .error (.noAlternative "BreakpointId")
  | .string name => .ok (.text name)
  | _ => .error (.noAlternative "BreakpointId")

/-- The id at the front of a text. The value is read to its end before it is looked at. -/
def read (size room : Nat) : Reader BreakpointId := fun bytes => do
  let (value, rest) ← Json.readValue .keep size room bytes
  match ofJson value with
  | .ok id => .ok (id, rest)
  | .error fault => .error (.shape fault)

end BreakpointId

namespace CodeFlavor

def name : CodeFlavor → String
  | .creation => "creation"
  | .runtime => "runtime"

def variants : List (String × CodeFlavor) :=
  [creation, runtime].map fun flavor => (flavor.name, flavor)

/-- The flavour that a runtime flag asks for. -/
def ofRuntime (runtime : Bool) : CodeFlavor :=
  if runtime then .runtime else .creation

end CodeFlavor

/-- The key of the spelling at the front of a text. -/
def AddressKey.read (size : Nat) : Reader AddressKey := fun bytes => do
  let (spelling, rest) ← Json.readScalar size Json.asText bytes
  return (AddressKey.normalize spelling, rest)

namespace Breakpoint

/-- Whether a breakpoint stands at a program counter of a contract. -/
def isAt (b : Breakpoint) (address : AddressKey) (pc : UInt64) : Bool :=
  b.pc == pc && b.address == address

def display (b : Breakpoint) : String :=
  let scope :=
    match b.scope with
    | some flavor => s!" ({flavor.name})"
    | none => ""
  s!"#{b.id.display} @{b.address.text}:{b.pc.toNat}{scope}"

def toJson (b : Breakpoint) : Json :=
  .object
    [("id", b.id.toJson), ("address", .string b.address.text), ("pc", .ofWord b.pc),
      ("scope", match b.scope with
        | some flavor => .string flavor.name
        | none => .null)]

/-- The members of a breakpoint that have been read. -/
structure Fields where
  id : Option BreakpointId
  address : Option AddressKey
  pc : Option UInt64
  scope : Option (Option CodeFlavor)

/-- The record of a breakpoint, with at most `room` containers around each other in it. -/
def record (size room : Nat) : Json.Record Fields Breakpoint where
  name := "Breakpoint"
  fields :=
    [.optional "id" false (·.id) (fun id fields => { fields with id := some id })
      (BreakpointId.read size (room - 1)),
      .optional "address" false (·.address)
      (fun address fields => { fields with address := some address }) (AddressKey.read size),
      .optional "pc" false (·.pc) (fun pc fields => { fields with pc := some pc })
      (Json.readScalar size Json.asWord),
      .optional "scope" false (·.scope) (fun scope fields => { fields with scope := some scope })
      (Json.readOption (Json.readVariant size CodeFlavor.variants))]
  start := ⟨none, none, none, none⟩
  finish := fun fields =>
    match fields.id, fields.address, fields.pc with
    | none, _, _ => .error (.missingField "id")
    | _, none, _ => .error (.missingField "address")
    | _, _, none => .error (.missingField "pc")
    | some id, some address, some pc => .ok ⟨id, address, pc, fields.scope.getD none⟩

end Breakpoint

end DebugBridge

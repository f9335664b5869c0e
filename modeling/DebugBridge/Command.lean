import DebugBridge.Breakpoint
import DebugBridge.Content.Tree
import DebugBridge.Envelope
import DebugBridge.StorageSlot
import DebugBridge.Wire.Error

/-!
# Command — what the debugger asks for

A request names its command in the member `type` of its content. A content without such a text, and
a command that is not known, are `unknown`: they are acknowledged, so a newer debugger can work with
an older bridge. A known command must have its members in shape.

The members are looked at in the order of their keys. A member of the wrong shape counts before a
missing one, and of several missing ones the first in the order of the command's own definition.
-/

namespace DebugBridge

/-- A request of the debugger. -/
inductive Command where
  /-- Swap the code of a contract and, if a paused step is named, let the engine resume it. -/
  | injectNewCode (stepId : Option RequestId)
  | getStorage (address : AddressKey) (slot : StorageWord)
  /-- Enable a breakpoint, for which it needs a program counter, or disable all with its id. -/
  | sendBreakpoint (id : BreakpointId) (address : AddressKey) (pc : Option UInt64) (enabled : Bool)
      (runtime : Option Bool)
  | sendDeclarations (address : AddressKey) (pcs : List UInt64)
  | sendJumpDestinations (address : AddressKey) (pcs : List UInt64)
  /-- Release the paused step with this id and run freely up to a program counter. -/
  | runUntilPc (stepId : RequestId) (pc : UInt64)
  | ping
  | unknown
  deriving DecidableEq, Repr

namespace Command

/-- The name of a command in a content. -/
def name : Command → String
  | .injectNewCode _ => "injectNewCode"
  | .getStorage .. => "getStorage"
  | .sendBreakpoint .. => "sendBreakpoint"
  | .sendDeclarations .. => "sendDeclarations"
  | .sendJumpDestinations .. => "sendJumpDestinations"
  | .runUntilPc .. => "runUntilPc"
  | .ping => "ping"
  | .unknown => "unknown"

/-- A member, if it is there; it must have the shape. -/
def member? {α : Type} (members : List (String × Json)) (key : String)
    (shape : Json → Except ShapeFault α) : Except ShapeFault (Option α) :=
  match members.lookup key with
  | some value => (shape value).map some
  | none => .ok none

/-- A member that must be there. -/
def required {α : Type} (key : String) : Option α → Except ShapeFault α
  | some value => .ok value
  | none => .error (.missingField key)

/-- An address, in its normal form. -/
def asAddress (value : Json) : Except ShapeFault AddressKey :=
  value.asText.map .normalize

/-- The command of this name, from the members of a content. -/
def ofMembers (type : String) (members : List (String × Json)) : Except ShapeFault Command := do
  match type with
  | "injectNewCode" =>
    let stepId ← member? members "stepId" (Json.asOption Json.asText)
    return .injectNewCode (stepId.getD none)
  | "getStorage" =>
    let address ← member? members "address" asAddress
    let slot ← member? members "position" StorageWord.ofJson
    return .getStorage (← required "address" address) (← required "position" slot)
  | "sendBreakpoint" =>
    let address ← member? members "address" asAddress
    let enabled ← member? members "enabled" Json.asFlag
    let id ← member? members "id" BreakpointId.ofJson
    let pc ← member? members "pc" (Json.asOption Json.asWord)
    let runtime ← member? members "runtime" (Json.asOption Json.asFlag)
    return .sendBreakpoint (← required "id" id) (← required "address" address) (pc.getD none)
      (enabled.getD false) (runtime.getD none)
  | "sendDeclarations" =>
    let address ← member? members "address" asAddress
    let pcs ← member? members "declarations" Json.asWords
    return .sendDeclarations (← required "address" address) (← required "declarations" pcs)
  | "sendJumpDestinations" =>
    let address ← member? members "address" asAddress
    let pcs ← member? members "jumpDestinations" Json.asWords
    return .sendJumpDestinations (← required "address" address)
      (← required "jumpDestinations" pcs)
  | "runUntilPc" =>
    let pc ← member? members "pc" Json.asWord
    let stepId ← member? members "stepId" Json.asText
    return .runUntilPc (← required "stepId" stepId) (← required "pc" pc)
  | "ping" => return .ping
  | _ => return .unknown

/-- **The command of a request's content.** Every content with a text under `type` must unfold into
a tree, even if the command is not known. -/
def ofContent (c : Content) : Except WireError Command :=
  match c.field? "type" >>= Item.text? with
  | none => .ok .unknown
  | some type =>
    match c.toJson? with
    | none => .error .cycle
    | some (.object members) =>
      (ofMembers type members).mapError fun fault => .text (.shape fault)
    | some _ => .ok .unknown

end Command

/-! ## Replies -/

namespace Reply

def ok : String := "ok"
def codeInjected : String := "Code Injected"
def storageRetrieved : String := "Retrieved Storage Value"
def storageError : String := "Error Retrieving Storage Value"
def noEngine : String := "Error: no EVM attached"
def noRuntime : String := "no async runtime"
def duplicateId : String := "duplicate request id"
def superseded : String := "superseded by a newer runUntilPc"

def invalidAddress (key : AddressKey) : String :=
  "invalid address `" ++ key.text ++ "`"

/-- A reply that is a message. -/
def message (text : String) : Content :=
  Content.object.set "message" (.string text)

/-- A reply that gives the reason of a failure. -/
def error (reason : String) : Content :=
  message ("Error: " ++ reason)

/-- A reply with a word of storage, if there is one. -/
def storage : Option StorageWord → Content
  | some word => (message storageRetrieved).set "value" (.string word.text)
  | none => (message storageError).set "value" .null

end Reply

end DebugBridge

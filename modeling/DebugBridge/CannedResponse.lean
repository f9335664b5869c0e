import DebugBridge.Json.Record

/-!
# CannedResponse — the answer without a debugger

When no debugger is attached the engine is not kept waiting: it gets a fixed answer at once.
-/

namespace DebugBridge

/-- A status and a short reason. -/
structure CannedResponse where
  status : String
  data : String
  deriving DecidableEq, Repr

namespace CannedResponse

/-- No debugger is attached. -/
def disconnected : CannedResponse := ⟨"error", "disconnected"⟩

def isDisconnected (r : CannedResponse) : Bool :=
  r.status == "error" && r.data == "disconnected"

def toJson (r : CannedResponse) : Json :=
  .object [("data", .string r.data), ("status", .string r.status)]

/-- The members of a canned response that have been read. -/
structure Fields where
  status : Option String
  data : Option String

/-- The record of a canned response. -/
def record (size : Nat) : Json.Record Fields CannedResponse where
  name := "CannedResponse"
  fields :=
    [.optional "status" false (·.status)
      (fun status fields => { fields with status := some status })
      (Json.readScalar size Json.asText),
      .optional "data" false (·.data) (fun data fields => { fields with data := some data })
      (Json.readScalar size Json.asText)]
  start := ⟨none, none⟩
  finish := fun fields =>
    match fields.status, fields.data with
    | none, _ => .error (.missingField "status")
    | _, none => .error (.missingField "data")
    | some status, some data => .ok ⟨status, data⟩

end CannedResponse

end DebugBridge

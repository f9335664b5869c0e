import DebugBridge.Envelope
import DebugBridge.Transport
import DebugBridge.Wire.Error

/-!
# BridgeError — why a call fails

A call of the engine fails because of the link, because its content cannot be written, because the
session ended while it waited, or because what would have resumed it went away.
-/

namespace DebugBridge

/-- Why a call fails. -/
inductive BridgeError where
  | transport (error : TransportError)
  | wire (error : WireError)
  | sessionClosed
  | continuationDropped
  | duplicateRequest (id : RequestId)
  deriving DecidableEq, Repr

namespace BridgeError

def message : BridgeError → String
  | .transport error => error.message
  | .wire error => error.message
  | .sessionClosed => "debugger session closed before the request was answered"
  | .continuationDropped => "paused event was released without a resume"
  | .duplicateRequest id => s!"request id {id} is already pending"

/-- Whether the fault lies with the link. -/
def isTransport : BridgeError → Bool
  | .transport _ => true
  | _ => false

end BridgeError

end DebugBridge

import DebugBridge.CannedResponse
import DebugBridge.EngineService
import DebugBridge.Frame

/-!
# Effect — what an operation of the bridge brings about

An operation changes the bridge and, besides, sends frames, lets calls of the engine return and asks
the engine for services. These effects are listed in the order in which they happen.
-/

namespace DebugBridge

/-- How a call of the engine returns. -/
inductive Outcome where
  /-- The debugger need not know. -/
  | skipped
  /-- The debugger answered. -/
  | resumed (response : Envelope)
  /-- There is no debugger. -/
  | disconnected (answer : CannedResponse)
  | failed (error : BridgeError)
  deriving DecidableEq, Repr

/-- How a call returns whose wait has ended. -/
def Ending.outcome : Ending → Outcome
  | .resumed response => .resumed response
  | .failed error => .failed error
  | .released => .failed .continuationDropped

/-- What an operation brings about. -/
inductive Effect where
  /-- A frame goes to the debugger of a session. -/
  | send (session : SessionId) (frame : Frame)
  | finish (call : CallId) (outcome : Outcome)
  | readStorage (read : StorageRead)
  | inject (injection : CodeInjection)
  deriving DecidableEq, Repr

/-- A call returns because its wait has ended. -/
def Wake.effect (wake : Wake) : Effect :=
  .finish wake.call wake.ending.outcome

end DebugBridge

import DebugBridge.Address
import DebugBridge.Pending
import DebugBridge.StorageSlot

/-!
# EngineService — what the debugger has the engine do

The debugger can have the engine read the storage of a contract and swap the code of a contract. The
bridge hands both over and answers the debugger when the engine is done, if the session that asked
is still there.
-/

namespace DebugBridge

/-- The number of a session; the first one has number 1. -/
abbrev SessionId := Nat

/-- A read of the storage of a contract. -/
structure StorageRead where
  /-- The session that asked. -/
  session : SessionId
  /-- The request that is to be answered. -/
  replyTo : RequestId
  address : Address
  slot : StorageWord
  deriving DecidableEq, Repr

/-- New code for a contract, which may come with a paused step that the engine resumes when the
code is in place. -/
structure CodeInjection where
  /-- The session that asked. -/
  session : SessionId
  /-- The request that is to be answered. -/
  replyTo : RequestId
  /-- The step that the debugger named. -/
  stepId : Option RequestId
  /-- The content of the request. -/
  content : Content
  /-- The call that waits under the named step, if one does. -/
  paused : Option CallId
  deriving DecidableEq, Repr

namespace CodeInjection

/-- What ends when an injection ends in some way for its paused step. -/
def settle (injection : CodeInjection) (ending : RequestId → Ending) : Option Wake :=
  match injection.stepId, injection.paused with
  | some id, some call => some ⟨call, ending id⟩
  | _, _ => none

/-- **Resumes the paused step**, if there is one, with an empty response. -/
def resume (injection : CodeInjection) : Option Wake :=
  injection.settle fun id => .resumed (.response id .object)

/-- Lets go of the paused step, if there is one. -/
def drop (injection : CodeInjection) : Option Wake :=
  injection.settle fun _ => .released

end CodeInjection

end DebugBridge

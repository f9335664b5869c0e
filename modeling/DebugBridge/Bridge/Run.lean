import DebugBridge.Bridge.Basic

/-!
# Bridge/Run — what happens to a bridge, one input at a time

Whatever reaches a bridge is an `Input`. What a bridge does is a function of its inputs in their
order, so every order in which engine, debugger and link can act is a list of inputs, and a run is
the fold of `Bridge.step` over it.
-/

namespace DebugBridge

/-- What reaches a bridge. -/
inductive Input where
  | attach (connecting : Connecting)
  | disconnect
  | linkClosed (session : SessionId)
  | linkDeaf (session : SessionId)
  | report (event : EngineEvent) (id : RequestId)
  | request (request : EngineRequest) (id : RequestId)
  | finalize (address : AddressKey)
  | frame (session : SessionId) (bytes : List UInt8)
  | injected (injection : CodeInjection) (result : Except String Unit)
  | storageRead (read : StorageRead) (word : Option StorageWord)
  | storageRefused (read : StorageRead)
  /-- An engine offers its services. -/
  | engine
  | skipGasEstimation (on : Bool)

namespace Bridge

/-- **What a bridge does on an input.** -/
def step (b : Bridge) : Input → Bridge × List Effect
  | .attach connecting => ((b.attach connecting).1, [])
  | .disconnect => b.disconnect
  | .linkClosed id => b.linkClosed id
  | .linkDeaf id => (b.linkDeaf id, [])
  | .report event id => b.report event id
  | .request request id => b.request request id
  | .finalize address => (b.finalize address, [])
  | .frame id bytes => b.receive id bytes
  | .injected injection result => b.injected injection result
  | .storageRead read word => b.storageRead read word
  | .storageRefused read => b.storageRefused read
  | .engine => ({ b with hasEngine := true }, [])
  | .skipGasEstimation on => ({ b with skipGasEstimation := on }, [])

/-- **What a bridge does on inputs one after the other.** -/
def run (b : Bridge) : List Input → Bridge × List Effect
  | [] => (b, [])
  | input :: rest =>
    let (b, effects) := b.step input
    let (b, later) := b.run rest
    (b, effects ++ later)

end Bridge

end DebugBridge

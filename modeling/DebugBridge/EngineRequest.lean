import DebugBridge.Address
import DebugBridge.Content.Tree
import DebugBridge.Envelope

/-!
# EngineRequest — what the engine's side asks outside of events

The engine's side tells the debugger what was compiled and where contracts live, and may ask whether
the debugger is there. It waits for the answers as it does for those to events.
-/

namespace DebugBridge

/-- What the engine's side asks the debugger for. -/
inductive EngineRequest where
  /-- The output of the compiler for the sources under a folder. -/
  | compilerOutput (sourceRoot : String) (output : Json)
  /-- The address of a contract. -/
  | contractAddress (name : String) (address : AddressKey)
  | ping

namespace EngineRequest

/-- The trigger under which it is asked. -/
def trigger : EngineRequest → String
  | .compilerOutput .. => Trigger.linkCompilerOutput
  | .contractAddress .. => Trigger.linkContractAddress
  | .ping => Trigger.ping

/-- What is said with it. -/
def content : EngineRequest → Content
  | .compilerOutput sourceRoot output =>
    .ofJson (.object [("compilationResult", output), ("sourceRootPath", .string sourceRoot)])
  | .contractAddress name address =>
    Content.object
      |>.set "contractName" (.string name)
      |>.set "address" (.string address.text)
  | .ping => .object

end EngineRequest

end DebugBridge

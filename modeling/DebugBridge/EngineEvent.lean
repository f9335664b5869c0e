import DebugBridge.Address
import DebugBridge.Content.Tree
import DebugBridge.Envelope

/-!
# EngineEvent — what the execution engine reports

The engine reports each instruction before it runs and a few larger events. A step carries the
engine's own context, an arbitrary graph, which goes to the debugger as it is with four members set
on top.
-/

namespace DebugBridge

/-- Why a step wakes the debugger. -/
inductive StepTag where
  /-- A call whose callstack and parameters the debugger follows. -/
  | specialEvent
  /-- The entry of a function. -/
  | jumpDestination
  /-- Any other jump or jump target. -/
  | jump
  /-- The declaration of a variable. -/
  | declaration
  | breakpoint
  deriving DecidableEq, Repr

namespace StepTag

def name : StepTag → String
  | .specialEvent => "specialEvent"
  | .jumpDestination => "fnJumpDestination"
  | .jump => "jump"
  | .declaration => "declaration"
  | .breakpoint => "breakpoint"

/-- The tags by their names. -/
def variants : List (String × StepTag) :=
  [specialEvent, jumpDestination, jump, declaration, breakpoint].map fun tag => (tag.name, tag)

end StepTag

/-- An instruction that is about to run. -/
structure Step where
  address : AddressKey
  pc : UInt64
  opcode : String
  estimatingGas : Bool
  context : Content
  deriving DecidableEq, Repr

/-- **The content that a step is sent with**: the context with the place of the step, its opcode and
its tags. -/
def Step.content (step : Step) (tags : List StepTag) : Content :=
  step.context
    |>.set "pc" (.ofWord step.pc)
    |>.set "address" (.string step.address.text)
    |>.set "opcode" (.object [("name", .string step.opcode)])
    |>.set "specialEvents" (.array (tags.map fun tag => .string tag.name))

/-- An event of the engine. -/
inductive EngineEvent where
  | step (step : Step)
  | newContract (address : AddressKey) (code : List UInt8)
  | beforeBlock (content : Content)
  | afterBlock (content : Content)
  | beforeTx (content : Content)
  | afterTx (content : Content)
  | exception (content : Content)
  deriving DecidableEq, Repr

namespace EngineEvent

def trigger : EngineEvent → String
  | .step _ => Trigger.step
  | .newContract .. => Trigger.newContract
  | .beforeBlock _ => Trigger.beforeBlock
  | .afterBlock _ => Trigger.afterBlock
  | .beforeTx _ => Trigger.beforeTx
  | .afterTx _ => Trigger.afterTx
  | .exception _ => Trigger.exception

/-- The content that an event is sent with, a step without tags. -/
def content : EngineEvent → Content
  | .step s => s.content []
  | .newContract address code =>
    Content.object
      |>.set "address" (.string address.text)
      |>.set "code" (.string (String.ofList (Hex.ofBytes code)))
  | .beforeBlock content | .afterBlock content | .beforeTx content | .afterTx content
  | .exception content => content

end EngineEvent

end DebugBridge

import DebugBridge.Content.Matching

/-!
# Envelope — messages between the engine's side and the debugger

Every message is an envelope: an id, whether it asks or answers, what caused it, and a content. A
response carries the id of the request it answers.
-/

namespace DebugBridge

/-- The id of a request and of its response. -/
abbrev RequestId := String

/-- Whether a message asks or answers. -/
inductive MessageType where
  | request
  | response
  deriving DecidableEq, Repr

namespace MessageType

/-- The name of a message type in a frame. -/
def name : MessageType → String
  | .request => "request"
  | .response => "response"

/-- The message types by their names. -/
def variants : List (String × MessageType) :=
  [request, response].map fun type => (type.name, type)

end MessageType

/-- A message. -/
structure Envelope where
  id : RequestId
  type : MessageType
  /-- What caused the message. -/
  trigger : String
  content : Content
  deriving DecidableEq, Repr

/-! ## Triggers -/

namespace Trigger

def step : String := "step"
def newContract : String := "newContract"
def beforeBlock : String := "beforeBlock"
def afterBlock : String := "afterBlock"
def beforeTx : String := "beforeTx"
def afterTx : String := "afterTx"
def exception : String := "exception"
def linkCompilerOutput : String := "linkCompilerOutput"
def linkContractAddress : String := "linkContractAddress"
def ping : String := "ping"
def response : String := "response"

end Trigger

namespace Envelope

/-- The request with this id. -/
def request (id : RequestId) (trigger : String) (content : Content) : Envelope :=
  ⟨id, .request, trigger, content⟩

/-- The answer to the request with this id. -/
def response (id : RequestId) (content : Content) : Envelope :=
  ⟨id, .response, Trigger.response, content⟩

/-- Equality of messages, with contents compared as graphs. -/
def same (a b : Envelope) : Bool :=
  a.id == b.id && a.type == b.type && a.trigger == b.trigger && a.content.same b.content

end Envelope

end DebugBridge

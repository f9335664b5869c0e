import DebugBridge.Config
import DebugBridge.EngineRequest
import DebugBridge.Session.Handling

/-!
# Bridge — between an engine and its debugger

The engine reports events and waits; the debugger answers. At most one debugger is attached at a
time, and every time is a session of its own with a new number, so what still arrives from an
earlier session, a frame or the result of a service, is told apart and has no effect.

Calls are numbered in the order in which they are made. The ids of the requests that the bridge
sends come from outside; they are meant to be new.

A session ends when its link does not take a frame or is closed, when the debugger is dropped, and
when a step at the target of a run or the result of a service cannot be written. Any other message
that cannot be written fails alone.
-/

namespace DebugBridge

/-- A bridge. -/
structure Bridge where
  /-- The settings it was made with. -/
  config : Config
  /-- Whether steps of a gas estimation are suppressed now. -/
  skipGasEstimation : Bool
  /-- Whether an engine offers its services. -/
  hasEngine : Bool
  /-- The addresses reported as finalized since the last session ended. -/
  finalized : KeySet
  /-- How many sessions there have been. -/
  sessions : Nat
  /-- How many calls there have been. -/
  calls : Nat
  session : Option Session
  deriving DecidableEq, Repr

/-- How connecting to a debugger goes. -/
inductive Connecting where
  | established
  | failed (error : TransportError)
  /-- Nobody answers. -/
  | unanswered
  deriving DecidableEq, Repr

namespace Bridge

/-- A bridge without a debugger. -/
def new (config : Config) : Bridge :=
  ⟨config, config.skipGasEstimation, false, .empty, 0, 0, none⟩

instance : Inhabited Bridge := ⟨new .default⟩

/-! ## What can be seen -/

def isConnected (b : Bridge) : Bool :=
  b.session.isSome

/-- What the debugger has set up, if one is attached. -/
def state? (b : Bridge) : Option DebuggerState :=
  b.session.map (·.state)

/-- Whether steps that nothing flags are passed over; so it is without a debugger. -/
def fastStep (b : Bridge) : Bool :=
  b.state?.all (·.fastStep)

/-- How many requests of either side have no answer. -/
def pendingRequests (b : Bridge) : Nat :=
  b.session.elim 0 (·.pending.size)

/-- The live session, if it has this number. -/
def session? (b : Bridge) (id : SessionId) : Option Session :=
  b.session.filter (·.id == id)

/-! ## Sessions -/

/-- **Attaches a debugger.** There must be none, and connecting must succeed in time. -/
def attach (b : Bridge) (connecting : Connecting) : Bridge × Except TransportError Unit :=
  if b.isConnected then (b, .error .alreadyConnected)
  else
    match connecting with
    | .failed error => (b, .error error)
    | .unanswered => (b, .error (.timeout b.config.connectTimeout))
    | .established =>
      let id := b.sessions + 1
      ({ b with sessions := id, session := some (.start id b.finalized) }, .ok ())

/-- Ends a session. -/
def lose (b : Bridge) (s : Session) : Bridge × List Effect :=
  ({ b with session := none, finalized := .empty }, s.close)

/-- Goes on with the session of a turn. -/
def keep (b : Bridge) (turn : Turn) : Bridge × List Effect :=
  ({ b with session := some turn.session }, turn.effects)

/-- Ends the session of a turn. -/
def abort (b : Bridge) (turn : Turn) : Bridge × List Effect :=
  let (b, closing) := b.lose turn.session
  (b, turn.effects ++ closing)

/-- Goes on with the session of a turn, unless the link failed. -/
def settle (b : Bridge) (turn : Turn) : Bridge × List Effect :=
  if turn.fault.any (·.isTransport) then b.abort turn else b.keep turn

/-- **Drops the debugger.** -/
def disconnect (b : Bridge) : Bridge × List Effect :=
  match b.session with
  | some s => b.lose s
  | none => (b, [])

/-- The link of a session is closed. -/
def linkClosed (b : Bridge) (id : SessionId) : Bridge × List Effect :=
  match b.session? id with
  | some s => b.lose s
  | none => (b, [])

/-- The link of a session takes no more frames. -/
def linkDeaf (b : Bridge) (id : SessionId) : Bridge :=
  match b.session? id with
  | some s => { b with session := some { s with accepting := false } }
  | none => b

/-! ## Calls of the engine -/

/-- The error of a turn is what its call returns. -/
def returning (call : CallId) (turn : Turn) : Turn :=
  { turn with effects := turn.effects ++ turn.fault.toList.map fun e => .finish call (.failed e) }

/-- A call starts. It returns at once when there is no debugger. -/
def call (b : Bridge) (start : Bridge → CallId → Session → Bridge × List Effect) :
    Bridge × List Effect :=
  let id := b.calls
  let b := { b with calls := id + 1 }
  match b.session with
  | none => (b, [.finish id (.disconnected .disconnected)])
  | some s => start b id s

/-- **Reports an event.** Steps go to the debugger as the policy says. A step at the target of a run
ends the session if it cannot be sent, all other events only if the link failed. -/
def report (b : Bridge) (event : EngineEvent) (id : RequestId) : Bridge × List Effect :=
  b.call fun b call s =>
    let forward (content : Content) : Bridge × List Effect :=
      b.settle (returning call (s.forward call id event.trigger content))
    match event with
    | .step step =>
      match Policy.decide s.state b.skipGasEstimation b.config.scopeMode step with
      | .skip => (b, [.finish call .skipped])
      | .forward tags => forward (step.content tags)
      | .runUntilHit target =>
        let turn := returning call (s.reachTarget call target (step.content []))
        if turn.fault.isSome then b.abort turn else b.keep turn
    | event => forward event.content

/-- **Sends a request of the engine's side.** -/
def request (b : Bridge) (request : EngineRequest) (id : RequestId) : Bridge × List Effect :=
  b.call fun b call s =>
    b.settle (returning call (s.forward call id request.trigger request.content))

/-- Notes that an address runs finalized code from now on. -/
def finalize (b : Bridge) (address : AddressKey) : Bridge :=
  { b with
    finalized := b.finalized.insert address.text ()
    session := b.session.map fun s => { s with state := s.state.markRuntime address } }

/-! ## Messages and services -/

/-- **Takes a frame that comes over the link of a session.** A frame that is no message is passed
over. -/
def receive (b : Bridge) (id : SessionId) (bytes : List UInt8) : Bridge × List Effect :=
  match Envelope.decode bytes, b.session? id with
  | .ok e, some s => b.settle (s.receive b.config.scopeMode b.hasEngine e)
  | _, _ => (b, [])

/-- Answers a request that had to wait for the engine. If it cannot be sent, the session ends. -/
def answer (b : Bridge) (id : SessionId) (replyTo : RequestId) (content : Content) :
    Bridge × List Effect :=
  match b.session? id with
  | none => (b, [])
  | some s =>
    let turn := s.reply replyTo content
    if turn.fault.isSome then b.abort turn else b.keep turn

/-- The engine has taken an injection, or has refused it for a reason. -/
def injected (b : Bridge) (injection : CodeInjection) (result : Except String Unit) :
    Bridge × List Effect :=
  b.answer injection.session injection.replyTo
    (match result with
    | .ok () => Reply.message Reply.codeInjected
    | .error reason => Reply.error reason)

/-- The engine has read a word of storage, or could not. -/
def storageRead (b : Bridge) (read : StorageRead) (word : Option StorageWord) :
    Bridge × List Effect :=
  b.answer read.session read.replyTo (Reply.storage word)

/-- There is nowhere a read of storage could run. -/
def storageRefused (b : Bridge) (read : StorageRead) : Bridge × List Effect :=
  b.answer read.session read.replyTo (Reply.error Reply.noRuntime)

end Bridge

end DebugBridge

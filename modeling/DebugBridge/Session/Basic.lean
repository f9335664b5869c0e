import DebugBridge.DebuggerState
import DebugBridge.Effect

/-!
# Session — the time with one debugger

A session lasts from attaching a debugger until the link is lost or the debugger is dropped. It owns
what the debugger has set up and what waits for an answer.

An operation on a session comes to a `Turn`: the session afterwards, the effects, and the error that
cut the operation short, if there is one. Every operation sends one frame at most. A frame that
cannot be sent changes nothing but that it is missing; what the operation did before stays done.
-/

namespace DebugBridge

/-- The time with one debugger. -/
structure Session where
  id : SessionId
  state : DebuggerState
  pending : Pending
  /-- Whether the link still takes frames. -/
  accepting : Bool
  deriving DecidableEq, Repr

/-- What an operation on a session comes to. -/
structure Turn where
  session : Session
  effects : List Effect
  fault : Option BridgeError
  deriving DecidableEq, Repr

namespace Turn

/-- Goes on with the session, unless an error cut the turn short. -/
def andThen (turn : Turn) (next : Session → Turn) : Turn :=
  match turn.fault with
  | some _ => turn
  | none =>
    let rest := next turn.session
    { rest with effects := turn.effects ++ rest.effects }

end Turn

namespace Session

/-- A new session, in which some addresses run finalized code already. -/
def start (id : SessionId) (runtime : KeySet) : Session :=
  ⟨id, .start runtime, .empty, true⟩

/-- The session as it is. -/
def idle (s : Session) : Turn :=
  ⟨s, [], none⟩

/-! ## Sending -/

/-- The frame of a message, if it can be written and the link takes it. -/
def frame (s : Session) (e : Envelope) : Except BridgeError Frame :=
  match e.frame with
  | .error fault => .error (.wire fault)
  | .ok frame => if s.accepting then .ok frame else .error (.transport .sendFailed)

/-- Sends a message. -/
def send (s : Session) (e : Envelope) : Turn :=
  match s.frame e with
  | .ok frame => ⟨s, [.send s.id frame], none⟩
  | .error fault => ⟨s, [], some fault⟩

/-- **Answers a request of the debugger**, which thereby is no longer pending. -/
def reply (s : Session) (id : RequestId) (content : Content) : Turn :=
  let (pending, wakes) := s.pending.drop id
  let turn := send { s with pending } (.response id content)
  { turn with effects := wakes.map Wake.effect ++ turn.effects }

/-- **Sends a request to the debugger**; the call waits for the response. If the request cannot be
sent, the call does not wait and the session is as before. -/
def forward (s : Session) (call : CallId) (id : RequestId) (trigger : String) (content : Content) :
    Turn :=
  match s.pending.register id (.resume call) with
  | .error fault => ⟨s, [], some fault⟩
  | .ok pending =>
    let turn := send { s with pending } (.request id trigger content)
    match turn.fault with
    | none => turn
    | some _ => { turn with session := { s with pending := (pending.drop id).1 } }

/-- **Answers the request to run up to a program counter** with the step that reached it. The call
of the step waits under the id of that request. -/
def reachTarget (s : Session) (call : CallId) (id : RequestId) (content : Content) : Turn :=
  let s := { s with state := { s.state with runUntil := none } }
  (s.send (.response id content)).andThen fun s =>
    let (pending, previous) := s.pending.reassign id (.resume call)
    let wakes := previous.toList.flatMap (·.settle .released)
    ⟨{ s with pending }, wakes.map Wake.effect, none⟩

/-! ## Responses -/

/-- Takes over the mode of stepping that a content asks for, if it does. -/
def applyFastStep (s : Session) (content : Content) : Session :=
  match content.field? "fastStep" >>= Item.flag? with
  | some fastStep => { s with state := { s.state with fastStep } }
  | none => s

/-- **Continues what waits for a response**, after taking over its mode of stepping. Nothing happens
when the id is not pending. -/
def release (s : Session) (response : Envelope) : Turn :=
  match s.pending.resolve? response with
  | none => s.idle
  | some (pending, wakes) =>
    ⟨{ s with pending }.applyFastStep response.content, wakes.map Wake.effect, none⟩

/-- Ends the session: every call that waits fails. -/
def close (s : Session) : List Effect :=
  (s.pending.failAll .sessionClosed).2.map Wake.effect

end Session

end DebugBridge

import DebugBridge.Command
import DebugBridge.Policy
import DebugBridge.Session.Basic

/-!
# Session/Handling — the requests of the debugger

Every request is answered once: most at once, those that need the engine when it is done, and the
request to run up to a program counter when it is reached or when a newer one takes its place.

A request under an id that is pending is refused, and the entry keeps belonging to the earlier
request. What is wrong with a request is answered, too; it never ends the session.
-/

namespace DebugBridge

namespace Session

/-- Enables a breakpoint, for which it needs a program counter, or disables all with its id. -/
def setBreakpoint (s : Session) (mode : ScopeMode) (id : BreakpointId) (address : AddressKey)
    (enabled : Bool) (pc : Option UInt64) (runtime : Option Bool) :
    Except ShapeFault Session :=
  let set (breakpoints : BreakpointSet) : Session :=
    { s with state := { s.state with breakpoints } }
  match enabled, pc with
  | false, _ => .ok (set (s.state.breakpoints.disable id).1)
  | true, none => .error (.missingField "pc")
  | true, some pc =>
    let scope :=
      match mode with
      | .scoped => runtime.map .ofRuntime
      | .insensitive => none
    .ok (set (s.state.breakpoints.enable ⟨id, address, pc, scope⟩).1)

/-- Runs up to a program counter from now on. An earlier request to do so is answered, and the step
that the new one names is released. -/
def runUntil (s : Session) (id stepId : RequestId) (pc : UInt64) (content : Content) : Turn :=
  let previous := s.state.runUntil
  let s := { s with state := { s.state with runUntil := some ⟨id, pc⟩ } }
  let turn :=
    match previous with
    | some previous => s.reply previous.id (Reply.error Reply.superseded)
    | none => s.idle
  turn.andThen fun s => s.release (.response stepId content)

/-- Hands an injection to the engine, together with the step it names if that step is paused. -/
def inject (s : Session) (id : RequestId) (stepId : Option RequestId) (content : Content) : Turn :=
  match stepId.bind s.pending.take? with
  | some (.resume call, pending) =>
    ⟨{ s with pending }, [.inject ⟨s.id, id, stepId, content, some call⟩], none⟩
  | _ => ⟨s, [.inject ⟨s.id, id, stepId, content, none⟩], none⟩

/-- Carries out the command of a request that is pending. -/
def obey (s : Session) (mode : ScopeMode) (hasEngine : Bool) (id : RequestId) (content : Content) :
    Command → Turn
  | .injectNewCode stepId =>
    if hasEngine then s.inject id stepId content else s.reply id (Reply.message Reply.noEngine)
  | .getStorage key slot =>
    if !hasEngine then s.reply id (Reply.message Reply.noEngine)
    else
      match key.address? with
      | none => s.reply id (Reply.error (Reply.invalidAddress key))
      | some address => ⟨s, [.readStorage ⟨s.id, id, address, slot⟩], none⟩
  | .sendBreakpoint breakpoint address pc enabled runtime =>
    match s.setBreakpoint mode breakpoint address enabled pc runtime with
    | .error fault => s.reply id (Reply.error fault.message)
    | .ok s => s.reply id (Reply.message Reply.ok)
  | .sendDeclarations address pcs =>
    let declarations := s.state.declarations.replace address pcs
    reply { s with state := { s.state with declarations } } id (Reply.message Reply.ok)
  | .sendJumpDestinations address pcs =>
    let jumpDestinations := s.state.jumpDestinations.replace address pcs
    reply { s with state := { s.state with jumpDestinations } } id (Reply.message Reply.ok)
  | .runUntilPc stepId pc => s.runUntil id stepId pc content
  | .ping | .unknown => s.reply id (Reply.message Reply.ok)

/-- **Takes a request of the debugger.** -/
def handle (s : Session) (mode : ScopeMode) (hasEngine : Bool) (request : Envelope) : Turn :=
  match s.pending.register request.id .awaitingReply with
  | .error _ => s.send (.response request.id (Reply.error Reply.duplicateId))
  | .ok pending =>
    let s := { s with pending }
    match Command.ofContent request.content with
    | .error fault => s.reply request.id (Reply.error fault.message)
    | .ok command => s.obey mode hasEngine request.id request.content command

/-- **Takes a message of the debugger.** -/
def receive (s : Session) (mode : ScopeMode) (hasEngine : Bool) (e : Envelope) : Turn :=
  match e.type with
  | .response => s.release e
  | .request => s.handle mode hasEngine e

end Session

end DebugBridge

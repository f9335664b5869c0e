import DebugBridge.Proofs.Command
import DebugBridge.Proofs.DebuggerState

/-!
# Session/Scopes — a session in which scopes do not count

Where scopes do not count, a breakpoint is filed without one, so the buckets of both flavours stay
empty (`unscoped_receive`), and a breakpoint stands at a step as if scopes counted
(`decide_scoped_eq`). Which addresses run finalized code is then looked at by nobody: whatever a
session does, it does with other addresses as well (`receive_withRuntime`), and messages that differ
in the scope that they give a breakpoint come to the same (`receive_of_sameButScope`).
-/

namespace DebugBridge

/-! ## Breakpoints without a scope -/

namespace BreakpointSet

/-- Whether no breakpoint of a set has a scope. -/
structure Unscoped (s : BreakpointSet) : Prop where
  creation : s.creation = []
  runtime : s.runtime = []

variable {s : BreakpointSet}

/-- **Without scopes a breakpoint stands in all code.** -/
theorem Unscoped.hits_eq (h : s.Unscoped) (address : AddressKey) (pc : UInt64) (runtime : Bool) :
    s.hits address pc runtime = s.hitsAnyScope address pc := by
  have hbucket (flavor : CodeFlavor) : s.bucket (some flavor) = [] := by
    rcases flavor
    · exact h.creation
    · exact h.runtime
  rw [hits, hitsAnyScope, toList, hbucket, h.creation, h.runtime]
  rfl

/-- Enabling breakpoints without a scope brings no others. -/
theorem Unscoped.change (h : s.Unscoped) {c : Change} (hc : ∀ b, c = .enable b → b.scope = none) :
    (s.change c).Unscoped := by
  cases c with
  | enable b =>
    rw [BreakpointSet.change, enable]
    split
    · exact h
    · rw [add, hc b rfl]
      exact ⟨h.creation, h.runtime⟩
  | disable id =>
    have hfilter {l : List Breakpoint} (hl : l = []) : l.filter (·.id != id) = [] := by
      rw [hl, List.filter_nil]
    exact ⟨hfilter h.creation, hfilter h.runtime⟩

end BreakpointSet

/-- **Without scopes it does not matter whether they count.** -/
theorem Policy.decide_scoped_eq {s : DebuggerState} (h : s.breakpoints.Unscoped) (skipGas : Bool)
    (step : Step) : decide s skipGas .scoped step = decide s skipGas .insensitive step := by
  have hstands : hitsBreakpoint s .scoped step = hitsBreakpoint s .insensitive step :=
    h.hits_eq step.address step.pc (s.isRuntime step.address)
  rw [decide, decide, tags, tags, hstands]

theorem DebuggerState.unscoped_after {s : DebuggerState} (h : s.breakpoints.Unscoped)
    {history : List Change}
    (hhistory : ∀ b, .breakpoints (.enable b) ∈ history → b.scope = none) :
    (s.after history).breakpoints.Unscoped := by
  induction history generalizing s with
  | nil => exact h
  | cons c history ih =>
    refine ih ?_ fun b hb => hhistory b (List.mem_cons_of_mem c hb)
    cases c with
    | breakpoints c => exact h.change fun b hb => hhistory b (hb ▸ List.mem_cons_self)
    | jumpDestinations | declarations | runtime => exact h

/-- Where scopes do not count, no breakpoint gets one. -/
theorem Command.scope_of_mem_changes {command : Command} {b : Breakpoint}
    (h : .breakpoints (.enable b) ∈ command.changes .insensitive) : b.scope = none := by
  rcases command with _ | _ | ⟨id, address, pc, enabled, runtime⟩ | _ | _ | _ | _ | _
  case sendBreakpoint =>
    rcases enabled with _ | _
    · simp [changes] at h
    · rcases pc with _ | pc
      · simp [changes] at h
      · simp only [changes, List.mem_singleton, DebuggerState.Change.breakpoints.injEq,
          BreakpointSet.Change.enable.injEq] at h
        rw [h]
  all_goals simp [changes] at h

namespace Session

/-- **A message brings no scopes where they do not count.** -/
theorem unscoped_receive {s : Session} (h : s.state.breakpoints.Unscoped) (hasEngine : Bool)
    (e : Envelope) : (s.receive .insensitive hasEngine e).session.state.breakpoints.Unscoped := by
  obtain ⟨history, run, fast, hstate, hhistory⟩ := s.exists_state_receive .insensitive hasEngine e
  have hunscoped : ∀ b, .breakpoints (.enable b) ∈ history → b.scope = none := by
    intro b hb
    rcases hhistory with rfl | ⟨command, -, rfl⟩
    · cases hb
    · exact command.scope_of_mem_changes hb
  rw [hstate]
  exact DebuggerState.unscoped_after h hunscoped

end Session

/-! ## Other addresses with finalized code -/

/-- A session in which other addresses run finalized code. -/
def Session.withRuntime (s : Session) (addresses : KeySet) : Session :=
  { s with state := { s.state with runtime := addresses } }

def Turn.withRuntime (t : Turn) (addresses : KeySet) : Turn :=
  { t with session := t.session.withRuntime addresses }

theorem Turn.andThen_withRuntime {t : Turn} {addresses : KeySet} {next : Session → Turn}
    (h : ∀ s, next (s.withRuntime addresses) = (next s).withRuntime addresses) :
    (t.withRuntime addresses).andThen next = (t.andThen next).withRuntime addresses := by
  obtain ⟨s, effects, fault⟩ := t
  rcases fault with _ | fault
  · show { next (s.withRuntime addresses) with
      effects := effects ++ (next (s.withRuntime addresses)).effects } = _
    rw [h]
    rfl
  · rfl

/-- **Where scopes do not count**, the policy does not look at finalized code. -/
theorem Policy.decide_withRuntime (s : Session) (addresses : KeySet) (skipGas : Bool) (step : Step) :
    decide (s.withRuntime addresses).state skipGas .insensitive step =
      decide s.state skipGas .insensitive step := rfl

namespace Session

variable (s : Session) (addresses : KeySet)

theorem send_withRuntime (e : Envelope) :
    (s.withRuntime addresses).send e = (s.send e).withRuntime addresses := by
  have hframe : (s.withRuntime addresses).frame e = s.frame e := rfl
  rw [send, send, hframe]
  split <;> rfl

theorem reply_withRuntime (id : RequestId) (content : Content) :
    (s.withRuntime addresses).reply id content = (s.reply id content).withRuntime addresses := by
  have hdrop : (s.withRuntime addresses).pending.drop id = s.pending.drop id := rfl
  rw [reply, reply, hdrop]
  rcases s.pending.drop id with ⟨pending, wakes⟩
  have hsend : send { s.withRuntime addresses with pending } (.response id content) =
      (send { s with pending } (.response id content)).withRuntime addresses :=
    send_withRuntime { s with pending } addresses _
  dsimp only
  rw [hsend]
  rfl

theorem forward_withRuntime (call : CallId) (id : RequestId) (trigger : String)
    (content : Content) : (s.withRuntime addresses).forward call id trigger content =
      (s.forward call id trigger content).withRuntime addresses := by
  have hregister : (s.withRuntime addresses).pending.register id (.resume call) =
      s.pending.register id (.resume call) := rfl
  rw [forward, forward, hregister]
  rcases s.pending.register id (.resume call) with fault | pending
  · rfl
  · have hsend : send { s.withRuntime addresses with pending } (.request id trigger content) =
        (send { s with pending } (.request id trigger content)).withRuntime addresses :=
      send_withRuntime { s with pending } addresses _
    dsimp only
    rw [hsend]
    generalize send { s with pending } (.request id trigger content) = turn
    obtain ⟨t, effects, _ | fault⟩ := turn <;> rfl

theorem reachTarget_withRuntime (call : CallId) (id : RequestId) (content : Content) :
    (s.withRuntime addresses).reachTarget call id content =
      (s.reachTarget call id content).withRuntime addresses := by
  have hsend := send_withRuntime { s with state := { s.state with runUntil := none } } addresses
    (.response id content)
  rw [reachTarget, reachTarget]
  show (send (withRuntime { s with state := { s.state with runUntil := none } } addresses)
    (.response id content)).andThen _ = _
  rw [hsend]
  exact Turn.andThen_withRuntime fun t => rfl

theorem release_withRuntime (response : Envelope) :
    (s.withRuntime addresses).release response = (s.release response).withRuntime addresses := by
  have hresolve : (s.withRuntime addresses).pending.resolve? response =
      s.pending.resolve? response := rfl
  rw [release, release, hresolve]
  rcases s.pending.resolve? response with _ | ⟨pending, wakes⟩
  · rfl
  · dsimp only [Turn.withRuntime]
    rw [applyFastStep, applyFastStep]
    split <;> rfl

theorem runUntil_withRuntime (id stepId : RequestId) (pc : UInt64) (content : Content) :
    (s.withRuntime addresses).runUntil id stepId pc content =
      (s.runUntil id stepId pc content).withRuntime addresses := by
  have hsupersede : (s.withRuntime addresses).supersede ⟨id, pc⟩ =
      (s.supersede ⟨id, pc⟩).withRuntime addresses := by
    have hrun : (s.withRuntime addresses).state.runUntil = s.state.runUntil := rfl
    rw [supersede, supersede, hrun]
    rcases s.state.runUntil with _ | previous
    · rfl
    · exact reply_withRuntime { s with state := { s.state with runUntil := some ⟨id, pc⟩ } }
        addresses _ _
  rw [runUntil_eq, runUntil_eq, hsupersede]
  exact Turn.andThen_withRuntime fun t => t.release_withRuntime addresses _

theorem inject_withRuntime (id : RequestId) (stepId : Option RequestId) (content : Content) :
    (s.withRuntime addresses).inject id stepId content =
      (s.inject id stepId content).withRuntime addresses := by
  have htake : stepId.bind (s.withRuntime addresses).pending.take? =
      stepId.bind s.pending.take? := rfl
  rw [inject, inject, htake]
  split <;> rfl

/-- **A command is carried out alike.** -/
theorem obey_withRuntime (mode : ScopeMode) (hasEngine : Bool) (id : RequestId) (content : Content)
    (command : Command) : (s.withRuntime addresses).obey mode hasEngine id content command =
      (s.obey mode hasEngine id content command).withRuntime addresses := by
  cases command with
  | injectNewCode stepId =>
    rw [obey, obey]
    split
    · exact s.inject_withRuntime addresses id stepId content
    · exact s.reply_withRuntime addresses id _
  | getStorage key slot =>
    rw [obey, obey]
    split
    · exact s.reply_withRuntime addresses id _
    · split
      · exact s.reply_withRuntime addresses id _
      · rfl
  | sendBreakpoint breakpoint address pc enabled runtime =>
    rcases enabled with _ | _
    · exact reply_withRuntime { s with state := { s.state with
        breakpoints := (s.state.breakpoints.disable breakpoint).1 } } addresses id _
    · rcases pc with _ | pc
      · exact s.reply_withRuntime addresses id _
      · exact reply_withRuntime { s with state := { s.state with
          breakpoints := (s.state.breakpoints.enable ⟨breakpoint, address, pc, _⟩).1 } }
          addresses id _
  | sendDeclarations address pcs =>
    exact reply_withRuntime { s with state := { s.state with
      declarations := s.state.declarations.replace address pcs } } addresses id _
  | sendJumpDestinations address pcs =>
    exact reply_withRuntime { s with state := { s.state with
      jumpDestinations := s.state.jumpDestinations.replace address pcs } } addresses id _
  | runUntilPc stepId pc => exact s.runUntil_withRuntime addresses id stepId pc content
  | ping => exact s.reply_withRuntime addresses id _
  | unknown => exact s.reply_withRuntime addresses id _

/-- **A message is taken alike.** -/
theorem receive_withRuntime (mode : ScopeMode) (hasEngine : Bool) (e : Envelope) :
    (s.withRuntime addresses).receive mode hasEngine e =
      (s.receive mode hasEngine e).withRuntime addresses := by
  rw [receive, receive]
  rcases e.type
  · have hregister : (s.withRuntime addresses).pending.register e.id .awaitingReply =
        s.pending.register e.id .awaitingReply := rfl
    dsimp only
    rw [handle, handle, hregister]
    rcases s.pending.register e.id .awaitingReply with fault | pending
    · exact s.send_withRuntime addresses _
    · dsimp only
      rcases Command.ofContent e.content with fault | command
      · exact reply_withRuntime { s with pending } addresses e.id _
      · exact obey_withRuntime { s with pending } addresses mode hasEngine e.id e.content command
  · exact s.release_withRuntime addresses e

end Session

/-! ## Messages with other scopes -/

/-- **Whether two messages are requests for a breakpoint that differ in its scope**, in the member
`runtime` of their contents, and in nothing else. -/
inductive Envelope.SameButScope : Envelope → Envelope → Prop
  | intro {e : Envelope} (scope scope' : ScopeMember) : e.type = .request →
    e.content.field? "type" = some (.string "sendBreakpoint") →
    SameButScope { e with content := e.content.withScope scope }
      { e with content := e.content.withScope scope' }

/-- **Where scopes do not count**, a message comes to the same with another scope. -/
theorem Session.receive_of_sameButScope {e f : Envelope} (h : e.SameButScope f) (s : Session)
    (hasEngine : Bool) : s.receive .insensitive hasEngine e = s.receive .insensitive hasEngine f := by
  obtain ⟨scope, scope', htype, hcommand⟩ := h
  simp only [receive, htype, handle]
  split
  · rfl
  · rcases Command.ofContent_withScope hcommand with
      ⟨fault, hfault⟩ | ⟨id, address, pc, enabled, hok⟩
    · simp only [hfault]
    · simp only [hok]
      rfl

end DebugBridge

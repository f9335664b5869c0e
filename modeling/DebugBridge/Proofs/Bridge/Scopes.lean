import DebugBridge.Proofs.Bridge.Isolation
import DebugBridge.Proofs.Session.Scopes

/-!
# Bridge/Scopes — a bridge in which scopes do not count

Two runs may differ in the scopes that the debugger asks for, and in what is reported as finalized
(`SameButScopes`). Where scopes do not count, nobody can tell them apart: step by step the bridges
have the same effects, and differ in the addresses that they know as finalized and in nothing else
(`step_of_sameButScope`, `run_of_sameButScopes`). Nor would it make a difference if scopes began to
count, since no breakpoint is ever filed under one (`Unscoped.run`).
-/

namespace DebugBridge

namespace Bridge

/-- A bridge to which other addresses were reported as finalized. -/
def withFinalized (b : Bridge) (addresses : KeySet) : Bridge :=
  { b with finalized := addresses, session := b.session.map (·.withRuntime addresses) }

/-- **Whether two results differ in finalized addresses alone**: the effects are the same. -/
def SameButFinalized (result other : Bridge × List Effect) : Prop :=
  ∃ addresses, other = (result.1.withFinalized addresses, result.2)

variable {b : Bridge} {s : Session} {addresses : KeySet}

theorem session_withFinalized_of_none (hs : b.session = none) :
    (b.withFinalized addresses).session = none := by
  rw [withFinalized, hs]
  rfl

theorem session_withFinalized_of_some (hs : b.session = some s) :
    (b.withFinalized addresses).session = some (s.withRuntime addresses) := by
  rw [withFinalized, hs]
  rfl

theorem session?_withFinalized (b : Bridge) (addresses : KeySet) (id : SessionId) :
    (b.withFinalized addresses).session? id = (b.session? id).map (·.withRuntime addresses) := by
  rcases hs : b.session with _ | s
  · rw [session?, session?, session_withFinalized_of_none hs, hs]
    rfl
  · have hs' : (b.withFinalized addresses).session = some (s.withRuntime addresses) :=
      session_withFinalized_of_some hs
    by_cases hid : s.id = id
    · rw [session?_eq_some_iff.2 ⟨hs, hid⟩, session?_eq_some_iff.2 ⟨hs', hid⟩]
      rfl
    · rw [session?_eq_none hs hid, session?_eq_none hs' hid]
      rfl

/-- What was reported before does not matter to other addresses. -/
theorem withFinalized_finalize (b : Bridge) (address : AddressKey) (addresses : KeySet) :
    (b.finalize address).withFinalized addresses = b.withFinalized addresses := by
  obtain ⟨config, skip, engine, finalized, sessions, calls, _ | s⟩ := b <;> rfl

theorem finalize_withFinalized (b : Bridge) (address : AddressKey) (addresses : KeySet) :
    (b.withFinalized addresses).finalize address =
      b.withFinalized (addresses.insert address.text ()) := by
  obtain ⟨config, skip, engine, finalized, sessions, calls, _ | s⟩ := b <;> rfl

/-! ## One input for both -/

section

variable (b : Bridge) (addresses : KeySet)

theorem settle_withFinalized (t : Turn) :
    SameButFinalized (b.settle t) ((b.withFinalized addresses).settle (t.withRuntime addresses)) := by
  have hfault : (t.withRuntime addresses).fault = t.fault := rfl
  rw [settle, settle, hfault]
  split
  · exact ⟨.empty, rfl⟩
  · exact ⟨addresses, rfl⟩

theorem ite_withFinalized (t : Turn) (c : Prop) [Decidable c] :
    SameButFinalized (if c then b.abort t else b.keep t)
      (if c then (b.withFinalized addresses).abort (t.withRuntime addresses)
        else (b.withFinalized addresses).keep (t.withRuntime addresses)) := by
  split
  · exact ⟨.empty, rfl⟩
  · exact ⟨addresses, rfl⟩

theorem attach_withFinalized (connecting : Connecting) :
    SameButFinalized ((b.attach connecting).1, [])
      (((b.withFinalized addresses).attach connecting).1, []) := by
  have hconnected : (b.withFinalized addresses).isConnected = b.isConnected := by
    rw [isConnected, isConnected, withFinalized, Option.isSome_map]
  unfold attach
  rw [hconnected]
  split
  · exact ⟨addresses, rfl⟩
  · rcases connecting with _ | error | _ <;> exact ⟨addresses, rfl⟩

theorem disconnect_withFinalized :
    SameButFinalized b.disconnect (b.withFinalized addresses).disconnect := by
  rcases hs : b.session with _ | s
  · rw [disconnect, disconnect, hs, session_withFinalized_of_none hs]
    exact ⟨addresses, rfl⟩
  · rw [disconnect, disconnect, hs, session_withFinalized_of_some hs]
    exact ⟨.empty, rfl⟩

theorem linkClosed_withFinalized (id : SessionId) :
    SameButFinalized (b.linkClosed id) ((b.withFinalized addresses).linkClosed id) := by
  rw [linkClosed, linkClosed, session?_withFinalized]
  rcases b.session? id with _ | s
  · exact ⟨addresses, rfl⟩
  · exact ⟨.empty, rfl⟩

theorem linkDeaf_withFinalized (id : SessionId) :
    SameButFinalized (b.linkDeaf id, []) ((b.withFinalized addresses).linkDeaf id, []) := by
  rw [linkDeaf, linkDeaf, session?_withFinalized]
  rcases b.session? id with _ | s <;> exact ⟨addresses, rfl⟩

theorem answer_withFinalized (id : SessionId) (replyTo : RequestId) (content : Content) :
    SameButFinalized (b.answer id replyTo content)
      ((b.withFinalized addresses).answer id replyTo content) := by
  rw [answer, answer, session?_withFinalized]
  rcases b.session? id with _ | s
  · exact ⟨addresses, rfl⟩
  · dsimp only [Option.map_some]
    rw [s.reply_withRuntime]
    exact b.ite_withFinalized addresses _ _

theorem receive_withFinalized (id : SessionId) (bytes : List UInt8) :
    SameButFinalized (b.receive id bytes) ((b.withFinalized addresses).receive id bytes) := by
  rw [receive, receive, session?_withFinalized]
  rcases Envelope.decode bytes with fault | e
  · exact ⟨addresses, rfl⟩
  · rcases b.session? id with _ | s
    · exact ⟨addresses, rfl⟩
    · dsimp only [Option.map_some]
      have hreceive := s.receive_withRuntime addresses b.config.scopeMode b.hasEngine e
      show SameButFinalized _ ((b.withFinalized addresses).settle
        ((s.withRuntime addresses).receive b.config.scopeMode b.hasEngine e))
      rw [hreceive]
      exact b.settle_withFinalized addresses _

/-- A request to the debugger. -/
theorem ask_withFinalized (s : Session) (call : CallId) (id : RequestId) (trigger : String)
    (content : Content) :
    SameButFinalized (b.settle (returning call (s.forward call id trigger content)))
      ((b.withFinalized addresses).settle
        (returning call ((s.withRuntime addresses).forward call id trigger content))) := by
  rw [s.forward_withRuntime]
  exact b.settle_withFinalized addresses (returning call _)

theorem request_withFinalized (request : EngineRequest) (id : RequestId) :
    SameButFinalized (b.request request id) ((b.withFinalized addresses).request request id) := by
  rcases hs : b.session with _ | s
  · rw [Bridge.request, Bridge.request, call_of_none hs,
      call_of_none (session_withFinalized_of_none hs)]
    exact ⟨addresses, rfl⟩
  · rw [request_of_some hs, request_of_some (session_withFinalized_of_some hs)]
    exact b.calling.ask_withFinalized addresses s b.calls id _ _

/-- The answer to the run under way. -/
theorem reach_withFinalized (s : Session) (call : CallId) (target : RequestId) (content : Content) :
    let turn := returning call (s.reachTarget call target content)
    let turn' := returning call ((s.withRuntime addresses).reachTarget call target content)
    SameButFinalized (if turn.fault.isSome then b.abort turn else b.keep turn)
      (if turn'.fault.isSome then (b.withFinalized addresses).abort turn'
        else (b.withFinalized addresses).keep turn') := by
  rw [s.reachTarget_withRuntime]
  exact b.ite_withFinalized addresses (returning call _) _

/-- **A report goes to the debugger in both or in neither**, where scopes do not count. -/
theorem report_withFinalized (hmode : b.config.scopeMode = .insensitive) (event : EngineEvent)
    (id : RequestId) :
    SameButFinalized (b.report event id) ((b.withFinalized addresses).report event id) := by
  rcases hs : b.session with _ | s
  · rw [report, report, call_of_none hs, call_of_none (session_withFinalized_of_none hs)]
    exact ⟨addresses, rfl⟩
  · rw [report, report, call_of_some hs, call_of_some (session_withFinalized_of_some hs)]
    rcases event with step | _ | _ | _ | _ | _ | _
    case step =>
      have hdecide : Policy.decide (s.withRuntime addresses).state
          (b.withFinalized addresses).calling.skipGasEstimation
          (b.withFinalized addresses).calling.config.scopeMode step =
            Policy.decide s.state b.calling.skipGasEstimation b.calling.config.scopeMode step := by
        show Policy.decide _ b.skipGasEstimation b.config.scopeMode step =
          Policy.decide _ b.skipGasEstimation b.config.scopeMode step
        rw [hmode, Policy.decide_withRuntime]
      dsimp only
      rw [hdecide]
      split
      · exact ⟨addresses, rfl⟩
      · exact b.calling.ask_withFinalized addresses s b.calls id _ _
      · exact b.calling.reach_withFinalized addresses s b.calls _ _
    all_goals exact b.calling.ask_withFinalized addresses s b.calls id _ _

end

/-- **What a bridge does on an input** it does as well if other addresses were reported as
finalized, where scopes do not count. -/
theorem step_withFinalized (hmode : b.config.scopeMode = .insensitive) (addresses : KeySet)
    (input : Input) : SameButFinalized (b.step input) ((b.withFinalized addresses).step input) := by
  rcases input with connecting | _ | id | id | ⟨event, id⟩ | ⟨request, id⟩ | address | ⟨id, bytes⟩ |
    ⟨injection, result⟩ | ⟨read, word⟩ | read | _ | on
  case attach => exact b.attach_withFinalized addresses connecting
  case disconnect => exact b.disconnect_withFinalized addresses
  case linkClosed => exact b.linkClosed_withFinalized addresses id
  case linkDeaf => exact b.linkDeaf_withFinalized addresses id
  case report => exact b.report_withFinalized addresses hmode event id
  case request => exact b.request_withFinalized addresses request id
  case finalize =>
    have hboth : (b.withFinalized addresses).finalize address =
        (b.finalize address).withFinalized (addresses.insert address.text ()) := by
      rw [finalize_withFinalized, withFinalized_finalize]
    exact ⟨_, Prod.ext hboth rfl⟩
  case frame => exact b.receive_withFinalized addresses id bytes
  case injected => exact b.answer_withFinalized addresses _ _ _
  case storageRead => exact b.answer_withFinalized addresses _ _ _
  case storageRefused => exact b.answer_withFinalized addresses _ _ _
  case engine => exact ⟨addresses, rfl⟩
  case skipGasEstimation => exact ⟨addresses, rfl⟩

/-! ## Settings -/

theorem config_settle (b : Bridge) (t : Turn) : (b.settle t).1.config = b.config := by
  rw [settle]
  split <;> rfl

/-- **The settings stay as they are.** -/
theorem config_step (b : Bridge) (input : Input) : (b.step input).1.config = b.config := by
  have hstepped := b.stepped input
  generalize b.step input = result at hstepped ⊢
  cases hstepped with
  | unmoved | equipped | suppressing | finalized | began | deafened | dropped | closed | unattended |
    skipped => rfl
  | asked | received => exact config_settle _ _
  | reached => split <;> rfl
  | answered =>
    rw [answer]
    split
    · rfl
    · dsimp only
      split <;> rfl

/-! ## No scopes -/

/-- Whether no breakpoint of the live session has a scope. -/
def Unscoped (b : Bridge) : Prop :=
  ∀ s ∈ b.session, s.state.breakpoints.Unscoped

theorem unscoped_turn (hmode : b.config.scopeMode = .insensitive)
    (h : s.state.breakpoints.Unscoped) (job : Job) :
    (b.turn s job).session.state.breakpoints.Unscoped := by
  cases job with
  | ask id trigger content =>
    rw [turn, Session.state_forward]
    exact h
  | reach target content =>
    rw [turn]
    rcases s.reachTarget_cases b.calls target content with ⟨_, -, hreach⟩ | ⟨_, -, hreach⟩
    all_goals
      rw [hreach]
      exact h
  | take e =>
    rw [turn, hmode]
    exact Session.unscoped_receive h b.hasEngine e
  | answer replyTo content =>
    rw [turn, Session.state_reply]
    exact h

/-- **No input brings a scope where scopes do not count.** -/
theorem Unscoped.step (h : b.Unscoped) (hmode : b.config.scopeMode = .insensitive)
    (input : Input) : (b.step input).1.Unscoped := by
  intro t ht
  rcases hs : b.session with _ | s
  · obtain ⟨-, -, rfl⟩ := began_of_none hs ht
    exact ⟨rfl, rfl⟩
  · rcases session_of_live hs ht with ⟨-, accepting, runtime, rfl⟩ | ⟨job, -, rfl⟩
    · exact h s hs
    · exact unscoped_turn hmode (h s hs) job

theorem Unscoped.run (h : b.Unscoped) (hmode : b.config.scopeMode = .insensitive)
    (inputs : List Input) : (b.run inputs).1.Unscoped := by
  induction inputs generalizing b with
  | nil => exact h
  | cons input rest ih => exact ih (h.step hmode input) ((b.config_step input).symm ▸ hmode)

end Bridge

/-! ## Two runs -/

/-- Whether two inputs differ in the scope of a breakpoint alone. -/
inductive Input.SameButScope : Input → Input → Prop
  | same (input : Input) : SameButScope input input
  | frame (session : SessionId) {bytes bytes' : List UInt8} {e f : Envelope} :
    Envelope.decode bytes = .ok e → Envelope.decode bytes' = .ok f → e.SameButScope f →
    SameButScope (.frame session bytes) (.frame session bytes')

/-- **Whether two runs differ in scopes alone**: in the scopes of the breakpoints that are asked
for, and in what is reported as finalized. -/
inductive SameButScopes : List Input → List Input → Prop
  | nil : SameButScopes [] []
  | cons {input other : Input} {inputs others : List Input} : input.SameButScope other →
    SameButScopes inputs others → SameButScopes (input :: inputs) (other :: others)
  | left {inputs others : List Input} (address : AddressKey) : SameButScopes inputs others →
    SameButScopes (.finalize address :: inputs) others
  | right {inputs others : List Input} (address : AddressKey) : SameButScopes inputs others →
    SameButScopes inputs (.finalize address :: others)

namespace Bridge

variable {b : Bridge} {input other : Input} {inputs others : List Input}

/-- **A bridge cannot tell two such inputs apart**, where scopes do not count, whatever was reported
as finalized before. -/
theorem step_of_sameButScope (hmode : b.config.scopeMode = .insensitive) (addresses : KeySet)
    (h : input.SameButScope other) :
    SameButFinalized (b.step input) ((b.withFinalized addresses).step other) := by
  have hstep := step_withFinalized hmode addresses input
  cases h with
  | same => exact hstep
  | @frame session bytes bytes' e f hdecode hdecode' hef =>
    have hmode' : (b.withFinalized addresses).config.scopeMode = .insensitive := hmode
    have hframe : (b.withFinalized addresses).receive session bytes' =
        (b.withFinalized addresses).receive session bytes := by
      rw [receive, receive, hdecode, hdecode']
      rcases (b.withFinalized addresses).session? session with _ | s
      · rfl
      · dsimp only
        rw [hmode', s.receive_of_sameButScope hef]
    show SameButFinalized _ ((b.withFinalized addresses).receive session bytes')
    rw [hframe]
    exact hstep

theorem run_finalize (b : Bridge) (address : AddressKey) (rest : List Input) :
    b.run (.finalize address :: rest) = (b.finalize address).run rest := rfl

/-- **Nor two such runs.** -/
theorem run_of_sameButScopes (hmode : b.config.scopeMode = .insensitive) (addresses : KeySet)
    (h : SameButScopes inputs others) :
    SameButFinalized (b.run inputs) ((b.withFinalized addresses).run others) := by
  induction h generalizing b addresses with
  | nil => exact ⟨addresses, rfl⟩
  | @cons input other inputs others hinput _ ih =>
    obtain ⟨between, hother⟩ := step_of_sameButScope hmode addresses hinput
    obtain ⟨later, hrest⟩ := ih ((b.config_step input).symm ▸ hmode) between
    refine ⟨later, ?_⟩
    rw [run, run, hother]
    dsimp only
    rw [hrest]
  | left address _ ih =>
    rw [run_finalize, ← b.withFinalized_finalize address addresses]
    exact ih (b := b.finalize address) hmode addresses
  | right address _ ih =>
    rw [run_finalize, finalize_withFinalized]
    exact ih hmode _

/-! ## Decisions in a run -/

/-- What becomes of the step that an input reports, if there is a debugger. -/
def decision? (b : Bridge) : Input → Option Decision
  | .report (.step step) _ =>
    b.session.map fun s => Policy.decide s.state b.skipGasEstimation b.config.scopeMode step
  | _ => none

/-- What becomes of the steps of a run, one after the other. -/
def decisions (b : Bridge) : List Input → List Decision
  | [] => []
  | input :: rest => (b.decision? input).toList ++ (b.step input).1.decisions rest

theorem decision?_withFinalized (hmode : b.config.scopeMode = .insensitive) (addresses : KeySet)
    (input : Input) : (b.withFinalized addresses).decision? input = b.decision? input := by
  rcases input with _ | _ | _ | _ | ⟨event, id⟩ | _ | _ | _ | _ | _ | _ | _ | _
  case report =>
    rcases event with step | _ | _ | _ | _ | _ | _
    case step =>
      rcases hs : b.session with _ | s
      · rw [decision?, decision?, session_withFinalized_of_none hs, hs]
        rfl
      · rw [decision?, decision?, session_withFinalized_of_some hs, hs]
        show some (Policy.decide _ b.skipGasEstimation b.config.scopeMode step) = _
        rw [hmode, Policy.decide_withRuntime]
        rfl
    all_goals rfl
  all_goals rfl

theorem decision?_of_sameButScope (h : input.SameButScope other) :
    b.decision? input = b.decision? other := by
  cases h <;> rfl

/-- **Every step gets the same decision in two such runs.** -/
theorem decisions_of_sameButScopes (hmode : b.config.scopeMode = .insensitive) (addresses : KeySet)
    (h : SameButScopes inputs others) :
    (b.withFinalized addresses).decisions others = b.decisions inputs := by
  induction h generalizing b addresses with
  | nil => rfl
  | @cons input other inputs others hinput _ ih =>
    obtain ⟨between, hother⟩ := step_of_sameButScope hmode addresses hinput
    rw [decisions, decisions, hother, ih ((b.config_step input).symm ▸ hmode) between,
      decision?_withFinalized hmode, decision?_of_sameButScope hinput]
  | left address _ ih =>
    show _ = (b.finalize address).decisions _
    rw [← b.withFinalized_finalize address addresses]
    exact ih (b := b.finalize address) hmode addresses
  | right address _ ih =>
    show ((b.withFinalized addresses).finalize address).decisions _ = _
    rw [finalize_withFinalized]
    exact ih hmode _

/-- **Where scopes do not count, they are really ignored.** Two runs that differ in the scopes of
the breakpoints that are asked for and in what is reported as finalized have the same effects, the
same decision for every step, be it one that is reported or one that may come next, and the same
breakpoints live in the same order; only the finalized addresses may differ. And no run comes to a
state in which it would matter to a step whether scopes counted. -/
theorem run_eq_of_sameButScopes {config : Config} (hmode : config.scopeMode = .insensitive) :
    (∀ inputs others, SameButScopes inputs others →
      let b := ((new config).run inputs).1
      let c := ((new config).run others).1
      ((new config).run others).2 = ((new config).run inputs).2 ∧
        (new config).decisions others = (new config).decisions inputs ∧
        c = b.withFinalized c.finalized ∧
        c.state?.map (·.breakpoints.toList) = b.state?.map (·.breakpoints.toList) ∧
        ∀ skipGas mode step, c.state?.map (Policy.decide · skipGas mode step) =
          b.state?.map (Policy.decide · skipGas mode step)) ∧
    ∀ inputs, ∀ s ∈ ((new config).run inputs).1.session, ∀ skipGas step,
      Policy.decide s.state skipGas .scoped step =
        Policy.decide s.state skipGas .insensitive step := by
  have hunscoped (inputs : List Input) : ((new config).run inputs).1.Unscoped :=
    Unscoped.run (by rintro s ⟨⟩) hmode inputs
  refine ⟨fun inputs others h => ?_, fun inputs s hs skipGas step =>
    Policy.decide_scoped_eq (hunscoped inputs s hs) skipGas step⟩
  obtain ⟨addresses, hrun⟩ := run_of_sameButScopes (b := new config) hmode .empty h
  have hnew : (new config).withFinalized .empty = new config := rfl
  rw [hnew] at hrun
  have hdecisions := decisions_of_sameButScopes (b := new config) hmode .empty h
  rw [hnew] at hdecisions
  have hsame := hunscoped inputs
  rw [hrun]
  dsimp only
  generalize ((new config).run inputs).1 = b at hsame ⊢
  refine ⟨rfl, hdecisions, rfl, ?_, fun skipGas mode step => ?_⟩
  · rw [state?, state?, withFinalized]
    rcases b.session with _ | s <;> rfl
  · rw [state?, state?, withFinalized]
    rcases hs : b.session with _ | s
    · rfl
    · have hboth : Policy.decide (s.withRuntime addresses).state skipGas mode step =
          Policy.decide s.state skipGas mode step := by
        rcases mode with _ | _
        · have hother : (s.withRuntime addresses).state.breakpoints.Unscoped := hsame s hs
          rw [Policy.decide_scoped_eq hother, Policy.decide_withRuntime,
            Policy.decide_scoped_eq (hsame s hs)]
        · exact Policy.decide_withRuntime s addresses skipGas step
      exact congrArg some hboth

/-- A request for a breakpoint. -/
def breakpointRequest : Envelope :=
  .request "x" "" (.ofJson (.object [("address", .string "aa"), ("enabled", .bool true),
    ("id", .string "b"), ("pc", .ofWord 7), ("type", .string "sendBreakpoint")]))

/-- A debugger asks for a breakpoint in runtime code, and the contract is reported as finalized
before a step gets there. -/
def scopedInputs : List Input :=
  [.attach .established,
    .frame 1 ("[\"x\",\"request\",\"\",\x7b\"type\":\"sendBreakpoint\",\"id\":\"b\"," ++
      "\"address\":\"aa\",\"pc\":7,\"enabled\":true,\"runtime\":true\x7d]").toUTF8.toList,
    .finalize ⟨"aa"⟩, .report (.step ⟨⟨"aa"⟩, 7, "ADD", false, .object⟩) "a"]

/-- The same without a scope and without the report. -/
def unscopedInputs : List Input :=
  [.attach .established,
    .frame 1 ("[\"x\",\"request\",\"\",\x7b\"type\":\"sendBreakpoint\",\"id\":\"b\"," ++
      "\"address\":\"aa\",\"pc\":7,\"enabled\":true\x7d]").toUTF8.toList,
    .report (.step ⟨⟨"aa"⟩, 7, "ADD", false, .object⟩) "a"]

/-- **A scope that makes no difference**: the step goes to the debugger in both runs. -/
theorem run_scopedInputs :
    let config := { Config.default with scopeMode := .insensitive }
    SameButScopes scopedInputs unscopedInputs ∧
      ((new config).run unscopedInputs).2 = ((new config).run scopedInputs).2 ∧
      (new config).decisions unscopedInputs = (new config).decisions scopedInputs ∧
      (new config).decisions scopedInputs = [.forward [.breakpoint]] := by
  intro config
  have hsame : SameButScopes scopedInputs unscopedInputs := by
    have hscope := Envelope.SameButScope.intro (e := breakpointRequest) (.flag true) .absent rfl
      (by decide +kernel)
    exact .cons (.same _) (.cons (.frame 1 (by decide +kernel) (by decide +kernel) hscope)
      (.left _ (.cons (.same _) .nil)))
  have hmode : config.scopeMode = .insensitive := rfl
  obtain ⟨heffects, hdecisions, -⟩ :=
    (run_eq_of_sameButScopes hmode).1 scopedInputs unscopedInputs hsame
  exact ⟨hsame, heffects, hdecisions, by decide +kernel⟩

end Bridge

end DebugBridge

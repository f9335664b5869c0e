import DebugBridge.Proofs.Bridge.World
import DebugBridge.Proofs.Session.Handling

/-!
# Bridge/Basic — what an operation of a bridge comes to

Calls, messages and results of services all come to a turn of the live session, with which the
bridge goes on or which ends the session. What an input can do is said once (`Stepped`), and what
every input keeps is proved by its cases.
-/

namespace DebugBridge

/-- Every call that waits fails when the session ends. -/
theorem Session.close_eq (s : Session) :
    s.close = (s.pending.calls.map fun place =>
      (⟨place.2, .failed .sessionClosed⟩ : Wake)).map Wake.effect := by
  rw [close, Pending.failAll, Pending.flatMap_settle]

/-- The request that an input says the engine is done with. -/
def Input.service? : Input → Option (SessionId × RequestId)
  | .injected injection _ => some injection.request
  | .storageRead read _ | .storageRefused read => some read.request
  | _ => none

namespace Bridge

/-! ## Sessions -/

/-- The session with an id is the live one, if it has the id. -/
theorem session?_eq_some_iff {b : Bridge} {id : SessionId} {s : Session} :
    b.session? id = some s ↔ b.session = some s ∧ s.id = id := by
  rw [session?, Option.filter_eq_some_iff, beq_iff_eq]

/-- There is no session with another id than that of the live one. -/
theorem session?_eq_none {b : Bridge} {id : SessionId} {s : Session} (h : b.session = some s)
    (hid : s.id ≠ id) : b.session? id = none := by
  rw [session?, h, Option.filter_some, if_neg (fun heq => hid (beq_iff_eq.1 heq))]

/-- To disconnect ends the session. -/
theorem session_disconnect (b : Bridge) : (b.step .disconnect).1.session = none := by
  show b.disconnect.1.session = none
  rw [disconnect]
  split
  · rfl
  · assumption

/-- The end of its link ends the session. -/
theorem session_linkClosed {b : Bridge} {s : Session} (h : b.session = some s) :
    (b.step (.linkClosed s.id)).1.session = none := by
  show (b.linkClosed s.id).1.session = none
  rw [linkClosed, session?_eq_some_iff.2 ⟨h, rfl⟩]
  rfl

/-! ## Reading effects -/

section

variable {α : Type} {f : Effect → Option α}
  (hf : ∀ call error, f (.finish call (.failed error)) = none)

include hf

/-- What reads nothing off calls that fail reads nothing off the end of a session. -/
theorem filterMap_close (s : Session) : s.close.filterMap f = [] := by
  rw [s.close_eq, List.filterMap_map, List.filterMap_map]
  exact List.filterMap_eq_nil_iff.2 fun _ _ => hf _ _

/-- What reads nothing off calls that fail reads nothing off the return of a call. -/
theorem filterMap_returning (call : CallId) (t : Turn) :
    (returning call t).effects.filterMap f = t.effects.filterMap f := by
  rw [returning, List.filterMap_append]
  rcases t.fault with _ | fault
  · exact List.append_nil _
  · rw [Option.toList_some, List.map_singleton, List.filterMap_cons_none (hf call fault)]
    exact List.append_nil _

/-- What reads nothing off calls that fail reads of the end of a session only what its turn has
brought about. -/
theorem filterMap_abort (b : Bridge) (t : Turn) :
    (b.abort t).2.filterMap f = t.effects.filterMap f := by
  show (t.effects ++ t.session.close).filterMap f = _
  rw [List.filterMap_append, filterMap_close hf, List.append_nil]

/-- What reads nothing off calls that fail reads off a turn the same whether the session goes on or
ends. -/
theorem filterMap_settle (b : Bridge) (t : Turn) :
    (b.settle t).2.filterMap f = t.effects.filterMap f := by
  rw [settle]
  split
  · exact filterMap_abort hf b t
  · rfl

/-- What reads nothing off calls that fail reads off a turn the same whatever it hangs on that the
session goes on. -/
theorem filterMap_ite (b : Bridge) (t : Turn) (c : Prop) [Decidable c] :
    (if c then b.abort t else b.keep t).2.filterMap f = t.effects.filterMap f := by
  split
  · exact filterMap_abort hf b t
  · rfl

end

/-! ## Calls -/

/-- The bridge in which a call has started. -/
def calling (b : Bridge) : Bridge :=
  { b with calls := b.calls + 1 }

/-- A step that the policy says is the target of a run is the target of the run under way. -/
theorem target_of_decide {state : DebuggerState} {skipGas : Bool} {mode : ScopeMode} {step : Step}
    {target : RequestId} (h : Policy.decide state skipGas mode step = .runUntilHit target) :
    ∃ cursor, state.runUntil = some cursor ∧ cursor.id = target := by
  rw [Policy.decide] at h
  split at h
  · cases h
  · split at h
    · next cursor hcursor =>
      split at h
      · exact ⟨cursor, hcursor, Decision.runUntilHit.inj h⟩
      · cases h
    · dsimp only at h
      split at h <;> cases h

/-- Without a debugger a call returns at once. -/
theorem call_of_none {b : Bridge} (h : b.session = none)
    (start : Bridge → CallId → Session → Bridge × List Effect) :
    b.call start = (b.calling, [.finish b.calls (.disconnected .disconnected)]) := by
  rw [call]
  dsimp only
  split
  · rfl
  · next hs => cases h.symm.trans hs

/-- With a debugger a call starts. -/
theorem call_of_some {b : Bridge} {s : Session} (h : b.session = some s)
    (start : Bridge → CallId → Session → Bridge × List Effect) :
    b.call start = start b.calling b.calls s := by
  rw [call]
  dsimp only
  split
  · next hnone => cases h.symm.trans hnone
  · next hs =>
    obtain rfl := Option.some.inj (h.symm.trans hs)
    rfl

/-- **A step that reaches the target of a run** is answered, if the answer can be sent, and its call
waits under the id of the run. -/
theorem report_target {b : Bridge} {s : Session} (h : b.session = some s) {step : Step}
    {target : RequestId}
    (hdecide : Policy.decide s.state b.skipGasEstimation b.config.scopeMode step =
      .runUntilHit target)
    {frame : Frame} (hframe : s.frame (.response target (step.content [])) = .ok frame)
    (id : RequestId) :
    b.report (.step step) id =
      ({ b with
          calls := b.calls + 1
          session := some { s with
            state := { s.state with runUntil := none }
            pending := ⟨s.pending.entries.insert target (.resume b.calls)⟩ } },
        .send s.id frame ::
          ((s.pending.get? target).toList.flatMap (·.settle .released)).map Wake.effect) := by
  rw [report, call_of_some h]
  dsimp only [calling]
  rw [hdecide]
  dsimp only
  rw [Session.reachTarget_of_frame hframe, returning]
  simp [keep]

/-- With a debugger a request of the engine's side is forwarded. -/
theorem request_of_some {b : Bridge} {s : Session} (h : b.session = some s)
    (request : EngineRequest) (id : RequestId) :
    b.request request id =
      b.calling.settle
        (returning b.calls (s.forward b.calls id request.trigger request.content)) := by
  rw [Bridge.request, call_of_some h]

/-! ## Services -/

/-- The result of a service for a session that is gone is passed over. -/
theorem answer_of_none {b : Bridge} {id : SessionId} (h : b.session? id = none)
    (replyTo : RequestId) (content : Content) : b.answer id replyTo content = (b, []) := by
  rw [answer, h]

/-- A late answer for the live session is sent as a reply. -/
theorem answer_of_some {b : Bridge} {s : Session} (h : b.session = some s) (replyTo : RequestId)
    (content : Content) :
    b.answer s.id replyTo content =
      if (s.reply replyTo content).fault.isSome then b.abort (s.reply replyTo content)
      else b.keep (s.reply replyTo content) := by
  rw [answer, session?_eq_some_iff.2 ⟨h, rfl⟩]

/-- An answer that cannot be sent ends the session. -/
theorem answer_of_deaf {b : Bridge} {s : Session} {id : SessionId} (h : b.session? id = some s)
    (hdeaf : s.accepting = false) (replyTo : RequestId) (content : Content) :
    (b.answer id replyTo content).1.session = none := by
  obtain ⟨hs, rfl⟩ := session?_eq_some_iff.1 h
  rw [answer_of_some hs, if_pos (Session.fault_reply_of_deaf hdeaf _ _)]
  rfl

/-! ## Inputs -/

/-- What an input asks of the debugger: under which id, for what reason and with which content. -/
def asks? (b : Bridge) (s : Session) : Input → Option (RequestId × String × Content)
  | .report (.step step) id =>
    match Policy.decide s.state b.skipGasEstimation b.config.scopeMode step with
    | .forward tags => some (id, Trigger.step, step.content tags)
    | _ => none
  | .report event id => some (id, event.trigger, event.content)
  | .request request id => some (id, request.trigger, request.content)
  | _ => none

/-- **What an input comes to.** -/
inductive Stepped (b : Bridge) : Input → Bridge × List Effect → Prop
  | unmoved {input : Input} : (Move.input input).made? = none → input.service? = none →
    b.request? input = none → Stepped b input (b, [])
  | equipped : Stepped b .engine ({ b with hasEngine := true }, [])
  | suppressing (on : Bool) :
    Stepped b (.skipGasEstimation on) ({ b with skipGasEstimation := on }, [])
  | finalized (address : AddressKey) : Stepped b (.finalize address) (b.finalize address, [])
  | began : b.session = none →
    Stepped b (.attach .established)
      ({ b with
          sessions := b.sessions + 1
          session := some (.start (b.sessions + 1) b.finalized) }, [])
  | deafened {s : Session} : b.session = some s →
    Stepped b (.linkDeaf s.id) ({ b with session := some { s with accepting := false } }, [])
  | dropped {s : Session} : b.session = some s → Stepped b .disconnect (b.lose s)
  | closed {s : Session} : b.session = some s → Stepped b (.linkClosed s.id) (b.lose s)
  | unattended {input : Input} {id : RequestId} : b.session = none →
    (Move.input input).made? = some id →
    Stepped b input (b.calling, [.finish b.calls (.disconnected .disconnected)])
  | skipped {s : Session} {step : Step} (id : RequestId) : b.session = some s →
    Policy.decide s.state b.skipGasEstimation b.config.scopeMode step = .skip →
    Stepped b (.report (.step step) id) (b.calling, [.finish b.calls .skipped])
  | asked {s : Session} {input : Input} {id : RequestId} {trigger : String} {content : Content} :
    b.session = some s → b.asks? s input = some (id, trigger, content) →
    Stepped b input
      (b.calling.settle (returning b.calls (s.forward b.calls id trigger content)))
  | reached {s : Session} {step : Step} {cursor : RunUntil} (id : RequestId) :
    b.session = some s → s.state.runUntil = some cursor →
    Policy.decide s.state b.skipGasEstimation b.config.scopeMode step = .runUntilHit cursor.id →
    Stepped b (.report (.step step) id)
      (if (s.reachTarget b.calls cursor.id (step.content [])).fault.isSome then
        b.calling.abort (returning b.calls (s.reachTarget b.calls cursor.id (step.content [])))
      else
        b.calling.keep (returning b.calls (s.reachTarget b.calls cursor.id (step.content []))))
  | received {s : Session} {e : Envelope} {bytes : List UInt8} : b.session = some s →
    Envelope.decode bytes = .ok e →
    Stepped b (.frame s.id bytes) (b.settle (s.receive b.config.scopeMode b.hasEngine e))
  | answered {input : Input} {id : SessionId} {replyTo : RequestId} {content : Content} :
    input.service? = some (id, replyTo) → content.Flat →
    Stepped b input (b.answer id replyTo content)

/-- To attach begins a session, or changes nothing. -/
theorem stepped_attach (b : Bridge) (connecting : Connecting) :
    b.Stepped (.attach connecting) ((b.attach connecting).1, []) := by
  unfold attach isConnected
  split
  · exact .unmoved rfl rfl rfl
  · next hnone =>
    rcases connecting with _ | error | _
    · exact .began (by simpa using hnone)
    · exact .unmoved rfl rfl rfl
    · exact .unmoved rfl rfl rfl

/-- To report an event is one of the steps. -/
theorem stepped_report (b : Bridge) (event : EngineEvent) (id : RequestId) :
    b.Stepped (.report event id) (b.report event id) := by
  rcases hs : b.session with _ | s
  · rw [report, call_of_none hs]
    exact .unattended hs rfl
  · rw [report, call_of_some hs]
    rcases event with step | ⟨address, code⟩ | content | content | content | content | content
    case step =>
      dsimp only [calling]
      rcases hdecide : Policy.decide s.state b.skipGasEstimation b.config.scopeMode step with
        _ | tags | target
      · exact .skipped id hs hdecide
      · exact .asked hs (by rw [asks?, hdecide]; rfl)
      · obtain ⟨cursor, hcursor, rfl⟩ := target_of_decide hdecide
        exact .reached id hs hcursor hdecide
    all_goals exact .asked hs rfl

/-- To receive a frame is one of the steps. -/
theorem stepped_receive (b : Bridge) (id : SessionId) (bytes : List UInt8) :
    b.Stepped (.frame id bytes) (b.receive id bytes) := by
  rw [receive]
  split
  · next e s hdecode hlive =>
    obtain ⟨hs, rfl⟩ := session?_eq_some_iff.1 hlive
    exact .received hs hdecode
  · next hnot =>
    refine .unmoved rfl rfl ?_
    rw [request?]
    split
    · next e s hdecode hlive => exact absurd hlive (hnot e s hdecode)
    · rfl

/-- **What every input comes to.** -/
theorem stepped (b : Bridge) (input : Input) : b.Stepped input (b.step input) := by
  rcases input with connecting | _ | id | id | ⟨event, id⟩ | ⟨request, id⟩ | address | ⟨id, bytes⟩ |
    ⟨injection, result⟩ | ⟨read, word⟩ | read | _ | on
  case attach => exact b.stepped_attach connecting
  case disconnect =>
    show b.Stepped _ b.disconnect
    rw [disconnect]
    split
    · next s hs => exact .dropped hs
    · exact .unmoved rfl rfl rfl
  case linkClosed =>
    show b.Stepped _ (b.linkClosed id)
    rw [linkClosed]
    split
    · next s hlive =>
      obtain ⟨hs, rfl⟩ := session?_eq_some_iff.1 hlive
      exact .closed hs
    · exact .unmoved rfl rfl rfl
  case linkDeaf =>
    show b.Stepped _ (b.linkDeaf id, [])
    rw [linkDeaf]
    split
    · next s hlive =>
      obtain ⟨hs, rfl⟩ := session?_eq_some_iff.1 hlive
      exact .deafened hs
    · exact .unmoved rfl rfl rfl
  case report => exact b.stepped_report event id
  case request =>
    show b.Stepped _ (b.request request id)
    rcases hs : b.session with _ | s
    · rw [Bridge.request, call_of_none hs]
      exact .unattended hs rfl
    · rw [request_of_some hs]
      exact .asked hs rfl
  case finalize => exact .finalized address
  case frame => exact b.stepped_receive id bytes
  case injected =>
    refine .answered rfl ?_
    rcases result with reason | _
    · exact Reply.flat_error reason
    · exact Reply.flat_message _
  case storageRead => exact .answered rfl (Reply.flat_storage word)
  case storageRefused => exact .answered rfl (Reply.flat_error _)
  case engine => exact .equipped
  case skipGasEstimation => exact .suppressing on

section

variable {b : Bridge} {input : Input}

/-- What the debugger is asked has the id that was made for it. -/
theorem made?_of_asks? {s : Session} {id : RequestId} {trigger : String} {content : Content}
    (h : b.asks? s input = some (id, trigger, content)) : (Move.input input).made? = some id := by
  rcases input with _ | _ | _ | _ | ⟨event, made⟩ | ⟨request, made⟩ | _ | _ | _ | _ | _ | _ | _
  case report =>
    rcases event with step | _ | _ | _ | _ | _ | _
    case step =>
      rw [asks?] at h
      split at h
      · exact congrArg some (Prod.mk.inj (Option.some.inj h)).1
      · cases h
    all_goals exact congrArg some (Prod.mk.inj (Option.some.inj h)).1
  case request => exact congrArg some (Prod.mk.inj (Option.some.inj h)).1
  all_goals cases h

/-- A call of the engine brings no request of the debugger, and ends none. -/
theorem request?_of_made? {id : RequestId} (h : (Move.input input).made? = some id) :
    b.request? input = none ∧ input.service? = none := by
  rcases input with _ | _ | _ | _ | _ | _ | _ | _ | _ | _ | _ | _ | _
  case report => exact ⟨rfl, rfl⟩
  case request => exact ⟨rfl, rfl⟩
  all_goals cases h

/-- An input of the engine brings no request. -/
theorem request?_of_service? {request : SessionId × RequestId}
    (h : input.service? = some request) : b.request? input = none := by
  rcases input with _ | _ | _ | _ | _ | _ | _ | _ | _ | _ | _ | _ | _
  case frame => cases h
  all_goals rfl

/-- To go on or to end makes no calls. -/
theorem calls_settle (b : Bridge) (t : Turn) : (b.settle t).1.calls = b.calls := by
  rw [settle]
  split <;> rfl

/-- To go on or to end begins no session. -/
theorem sessions_settle (b : Bridge) (t : Turn) : (b.settle t).1.sessions = b.sessions := by
  rw [settle]
  split <;> rfl

/-- What makes an id is a call. -/
theorem calls_of_made? {id : RequestId} (h : (Move.input input).made? = some id) :
    (b.step input).1.calls = b.calls + 1 := by
  have hstepped := b.stepped input
  generalize b.step input = result at hstepped ⊢
  cases hstepped with
  | unattended | skipped => rfl
  | asked => exact calls_settle _ _
  | reached => split <;> rfl
  | answered hservice => rw [(request?_of_made? (b := b) h).2] at hservice; cases hservice
  | unmoved hmade => rw [h] at hmade; cases hmade
  | _ => cases h

/-- **A session begins when a debugger is attached**, and in no other way. -/
theorem began_of_none (h : b.session = none) {t : Session}
    (ht : (b.step input).1.session = some t) :
    input = .attach .established ∧ (b.step input).1.sessions = b.sessions + 1 ∧
      t = .start (b.sessions + 1) b.finalized := by
  have hstepped := b.stepped input
  generalize b.step input = result at hstepped ht ⊢
  cases hstepped with
  | began => exact ⟨rfl, rfl, (Option.some.inj ht).symm⟩
  | unmoved | equipped | suppressing | unattended => cases h.symm.trans ht
  | finalized =>
    rw [finalize, h] at ht
    cases ht
  | @answered _ id =>
    have hlive : b.session? id = none := by
      rw [session?, h]
      rfl
    rw [answer_of_none hlive] at ht
    cases h.symm.trans ht
  | deafened hs | dropped hs | closed hs | skipped _ hs | asked hs | reached _ hs | received hs =>
    cases h.symm.trans hs

end

end Bridge

end DebugBridge

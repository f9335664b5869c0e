import DebugBridge.Proofs.Bridge.Basic

/-!
# Bridge/Jobs — what an input has the live session do

An input asks the debugger, answers the run up to a program counter, takes a message, or answers a
request that had to wait for the engine; or it does not concern the session. A step of the bridge is
then the turn of its job, with which the bridge goes on or which ends the session (`step_of_job?`,
`session_of_no_job`).
-/

namespace DebugBridge

/-- What an input has the live session do. -/
inductive Job where
  /-- Asking the debugger. -/
  | ask (id : RequestId) (trigger : String) (content : Content)
  /-- Answering the run up to a program counter with the step that has reached it. -/
  | reach (target : RequestId) (content : Content)
  /-- Taking a message of the debugger. -/
  | take (e : Envelope)
  /-- Answering a request that had to wait for the engine. -/
  | answer (replyTo : RequestId) (content : Content)

namespace Bridge

/-- The answer to a request of the live session. -/
def late (s : Session) (request : SessionId × RequestId) (content : Content) : Option Job :=
  if request.1 = s.id then some (.answer request.2 content) else none

/-- **What an input has the live session do**, if it concerns the session. -/
def job? (b : Bridge) (s : Session) : Input → Option Job
  | .report (.step step) id =>
    match Policy.decide s.state b.skipGasEstimation b.config.scopeMode step with
    | .skip => none
    | .forward tags => some (.ask id Trigger.step (step.content tags))
    | .runUntilHit target => some (.reach target (step.content []))
  | .report event id => some (.ask id event.trigger event.content)
  | .request request id => some (.ask id request.trigger request.content)
  | .frame id bytes =>
    match Envelope.decode bytes with
    | .ok e => if id = s.id then some (.take e) else none
    | .error _ => none
  | .injected injection (.ok ()) => late s injection.request (Reply.message Reply.codeInjected)
  | .injected injection (.error reason) => late s injection.request (Reply.error reason)
  | .storageRead read word => late s read.request (Reply.storage word)
  | .storageRefused read => late s read.request (Reply.error Reply.noRuntime)
  | _ => none

/-- The turn of a job. -/
def turn (b : Bridge) (s : Session) : Job → Turn
  | .ask id trigger content => s.forward b.calls id trigger content
  | .reach target content => s.reachTarget b.calls target content
  | .take e => s.receive b.config.scopeMode b.hasEngine e
  | .answer replyTo content => s.reply replyTo content

/-- The bridge after a job, and what the job brings about. -/
def carryOut (b : Bridge) (s : Session) (job : Job) : Bridge × List Effect :=
  match job with
  | .ask .. => b.calling.settle (returning b.calls (b.turn s job))
  | .reach .. =>
    if (b.turn s job).fault.isSome then b.calling.abort (returning b.calls (b.turn s job))
    else b.calling.keep (returning b.calls (b.turn s job))
  | .take _ => b.settle (b.turn s job)
  | .answer .. =>
    if (b.turn s job).fault.isSome then b.abort (b.turn s job) else b.keep (b.turn s job)

/-- Whatever its turn brings about, a job does. -/
theorem effects_subset_carryOut (b : Bridge) (s : Session) (job : Job) :
    (b.turn s job).effects ⊆ (b.carryOut s job).2 := by
  have hsettle (b : Bridge) (t : Turn) : t.effects ⊆ (b.settle t).2 := by
    rw [settle]
    split
    · exact List.subset_append_left _ _
    · exact List.Subset.refl _
  have hite (b : Bridge) (t : Turn) (c : Prop) [Decidable c] :
      t.effects ⊆ (if c then b.abort t else b.keep t).2 := by
    split
    · exact List.subset_append_left _ _
    · exact List.Subset.refl _
  have hreturning (call : CallId) (t : Turn) : t.effects ⊆ (returning call t).effects :=
    List.subset_append_left _ _
  rcases job with ⟨id, trigger, content⟩ | ⟨target, content⟩ | e | ⟨replyTo, content⟩
  case ask => exact List.Subset.trans (hreturning _ _) (hsettle _ _)
  case reach => exact List.Subset.trans (hreturning _ _) (hite _ _ _)
  case take => exact hsettle _ _
  case answer => exact hite _ _ _

theorem late_eq_some_iff {s : Session} {request : SessionId × RequestId} {content : Content}
    {job : Job} :
    late s request content = some job ↔ request.1 = s.id ∧ .answer request.2 content = job := by
  rw [late, Option.ite_none_right_eq_some, Option.some.injEq]

theorem late_eq_none_iff {s : Session} {request : SessionId × RequestId} {content : Content} :
    late s request content = none ↔ request.1 ≠ s.id := by
  simp [late]

theorem step_of_late {b : Bridge} {s : Session} (hs : b.session = some s)
    {request : SessionId × RequestId} {content : Content} {job : Job}
    (h : late s request content = some job) :
    b.answer request.1 request.2 content = b.carryOut s job := by
  obtain ⟨hid, rfl⟩ := late_eq_some_iff.1 h
  rw [hid]
  exact answer_of_some hs _ _

/-- **An input comes to its job.** -/
theorem step_of_job? {b : Bridge} {s : Session} (hs : b.session = some s) {input : Input}
    {job : Job} (h : b.job? s input = some job) : b.step input = b.carryOut s job := by
  rcases input with _ | _ | _ | _ | ⟨event, id⟩ | ⟨request, id⟩ | _ | ⟨id, bytes⟩ |
    ⟨injection, result⟩ | ⟨read, word⟩ | read | _ | _
  case report =>
    show b.report event id = _
    rw [report, call_of_some hs]
    rcases event with step | _ | _ | _ | _ | _ | _
    case step =>
      rw [job?] at h
      dsimp only [calling]
      rcases hdecide : Policy.decide s.state b.skipGasEstimation b.config.scopeMode step with
        _ | tags | target
      case skip =>
        rw [hdecide] at h
        cases h
      case forward | runUntilHit =>
        rw [hdecide] at h
        obtain rfl := Option.some.inj h
        rfl
    all_goals
      obtain rfl := Option.some.inj h
      rfl
  case request =>
    obtain rfl := Option.some.inj h
    exact request_of_some hs request id
  case frame =>
    rw [job?] at h
    split at h
    · next e hdecode =>
      split at h
      · next hid =>
        obtain rfl := Option.some.inj h
        show b.receive id bytes = _
        rw [receive, hdecode, hid, session?_eq_some_iff.2 ⟨hs, rfl⟩]
        rfl
      · cases h
    · cases h
  case injected => rcases result with reason | _ <;> exact step_of_late hs h
  case storageRead | storageRefused => exact step_of_late hs h
  all_goals cases h

/-- **Where a job comes from.** -/
inductive Assigned (b : Bridge) (s : Session) : Input → Job → Prop
  | forwarding {step : Step} {tags : List StepTag} (id : RequestId) :
    Policy.decide s.state b.skipGasEstimation b.config.scopeMode step = .forward tags →
    Assigned b s (.report (.step step) id) (.ask id Trigger.step (step.content tags))
  | reporting {event : EngineEvent} (id : RequestId) : (∀ step, event ≠ .step step) →
    Assigned b s (.report event id) (.ask id event.trigger event.content)
  | requesting (request : EngineRequest) (id : RequestId) :
    Assigned b s (.request request id) (.ask id request.trigger request.content)
  | reaching {step : Step} {target : RequestId} (id : RequestId) :
    Policy.decide s.state b.skipGasEstimation b.config.scopeMode step = .runUntilHit target →
    Assigned b s (.report (.step step) id) (.reach target (step.content []))
  | taking {bytes : List UInt8} {e : Envelope} : Envelope.decode bytes = .ok e →
    Assigned b s (.frame s.id bytes) (.take e)
  | answering {input : Input} {replyTo : RequestId} {content : Content} :
    input.service? = some (s.id, replyTo) → content.Flat →
    Assigned b s input (.answer replyTo content)

theorem assigned_late {b : Bridge} {s : Session} {input : Input}
    {request : SessionId × RequestId} (hservice : input.service? = some request)
    {content : Content} (hflat : content.Flat) {job : Job}
    (h : late s request content = some job) : b.Assigned s input job := by
  obtain ⟨hid, rfl⟩ := late_eq_some_iff.1 h
  exact .answering (hid ▸ hservice) hflat

theorem assigned {b : Bridge} {s : Session} {input : Input} {job : Job}
    (h : b.job? s input = some job) : b.Assigned s input job := by
  rcases input with _ | _ | _ | _ | ⟨event, id⟩ | ⟨request, id⟩ | _ | ⟨id, bytes⟩ |
    ⟨injection, result⟩ | ⟨read, word⟩ | read | _ | _
  case report =>
    rcases event with step | _ | _ | _ | _ | _ | _
    case step =>
      rw [job?] at h
      split at h
      · cases h
      · next tags hdecide =>
        obtain rfl := Option.some.inj h
        exact .forwarding id hdecide
      · next target hdecide =>
        obtain rfl := Option.some.inj h
        exact .reaching id hdecide
    all_goals
      obtain rfl := Option.some.inj h
      exact .reporting id (by rintro step ⟨⟩)
  case request =>
    obtain rfl := Option.some.inj h
    exact .requesting request id
  case frame =>
    rw [job?] at h
    split at h
    · next e hdecode =>
      obtain ⟨rfl, heq⟩ := Option.ite_none_right_eq_some.1 h
      obtain rfl := Option.some.inj heq
      exact .taking hdecode
    · cases h
  case injected =>
    rcases result with reason | _
    · exact assigned_late rfl (Reply.flat_error reason) h
    · exact assigned_late rfl (Reply.flat_message _) h
  case storageRead => exact assigned_late rfl (Reply.flat_storage word) h
  case storageRefused => exact assigned_late rfl (Reply.flat_error _) h
  all_goals cases h

theorem flat_of_job? {b : Bridge} {s : Session} {input : Input} {replyTo : RequestId}
    {content : Content} (h : b.job? s input = some (.answer replyTo content)) : content.Flat := by
  cases assigned h with
  | answering _ hflat => exact hflat

theorem made?_of_ask {b : Bridge} {s : Session} {input : Input} {id : RequestId}
    {trigger : String} {content : Content} (h : b.job? s input = some (.ask id trigger content)) :
    (Move.input input).made? = some id := by
  cases assigned h <;> rfl

/-- Whatever an input asks of the debugger is its job. -/
theorem job?_of_asks? {b : Bridge} {s : Session} {input : Input} {id : RequestId}
    {trigger : String} {content : Content} (h : b.asks? s input = some (id, trigger, content)) :
    b.job? s input = some (.ask id trigger content) := by
  rcases input with _ | _ | _ | _ | ⟨event, made⟩ | ⟨request, made⟩ | _ | _ | _ | _ | _ | _ | _
  case report =>
    rcases event with step | _ | _ | _ | _ | _ | _
    case step =>
      rw [asks?] at h
      rw [job?]
      split at h
      · next tags hdecide =>
        obtain ⟨rfl, hrest⟩ := Prod.mk.inj (Option.some.inj h)
        obtain ⟨rfl, rfl⟩ := Prod.mk.inj hrest
        rw [hdecide]
      · cases h
    all_goals
      obtain ⟨rfl, hrest⟩ := Prod.mk.inj (Option.some.inj h)
      obtain ⟨rfl, rfl⟩ := Prod.mk.inj hrest
      rfl
  case request =>
    obtain ⟨rfl, hrest⟩ := Prod.mk.inj (Option.some.inj h)
    obtain ⟨rfl, rfl⟩ := Prod.mk.inj hrest
    rfl
  all_goals cases h

/-- **An input without a job leaves the session live** and almost as it is, unless it drops the
debugger or closes the link: the link may take no more frames, and code may be finalized. -/
theorem session_of_no_job {b : Bridge} {s : Session} (hs : b.session = some s) {input : Input}
    (h : b.job? s input = none) (hdrop : input ≠ .disconnect)
    (hclose : input ≠ .linkClosed s.id) :
    ∃ accepting runtime, (b.step input).1.session =
      some { s with accepting, state := { s.state with runtime } } := by
  have hlate {request : SessionId × RequestId} {reply : Content}
      (h : late s request reply = none) (content : Content) :
      b.answer request.1 request.2 content = (b, []) :=
    answer_of_none (session?_eq_none hs (late_eq_none_iff.1 h).symm) _ _
  have hsame {c : Bridge} (hc : c.session = b.session) : ∃ accepting runtime,
      c.session = some { s with accepting, state := { s.state with runtime } } :=
    ⟨_, _, hc.trans hs⟩
  rcases input with connecting | _ | id | id | ⟨event, id⟩ | _ | address | ⟨id, bytes⟩ |
    ⟨injection, result⟩ | ⟨read, word⟩ | read | _ | _
  case attach =>
    refine hsame ?_
    show (b.attach connecting).1.session = _
    unfold attach
    rw [if_pos (by rw [isConnected, hs]; rfl)]
  case disconnect => exact absurd rfl hdrop
  case linkClosed =>
    refine hsame ?_
    show (b.linkClosed id).1.session = _
    rw [linkClosed, session?_eq_none hs fun heq => hclose (by rw [heq])]
  case linkDeaf =>
    show ∃ accepting runtime, (b.linkDeaf id).session = _
    rw [linkDeaf]
    split
    · next t hlive =>
      obtain rfl := Option.some.inj (hs.symm.trans (session?_eq_some_iff.1 hlive).1)
      exact ⟨_, _, rfl⟩
    · exact hsame rfl
  case report =>
    rcases event with step | _ | _ | _ | _ | _ | _
    case step =>
      refine hsame ?_
      show (b.report (.step step) id).1.session = _
      rw [job?] at h
      rw [report, call_of_some hs]
      dsimp only [calling]
      rcases hdecide : Policy.decide s.state b.skipGasEstimation b.config.scopeMode step with
        _ | tags | target
      case skip => rfl
      case forward | runUntilHit =>
        rw [hdecide] at h
        cases h
    all_goals cases h
  case finalize =>
    show ∃ accepting runtime, (b.finalize address).session = _
    rw [finalize, hs]
    exact ⟨_, _, rfl⟩
  case frame =>
    refine hsame ?_
    show (b.receive id bytes).1.session = _
    rw [job?] at h
    rw [receive]
    split
    · next e t hdecode hlive =>
      obtain ⟨ht, rfl⟩ := session?_eq_some_iff.1 hlive
      obtain rfl := Option.some.inj (hs.symm.trans ht)
      rw [hdecode] at h
      simp at h
    · rfl
  case injected =>
    refine hsame ?_
    rcases result with reason | _ <;> exact congrArg (·.1.session) (hlate h _)
  case storageRead | storageRefused => exact hsame (congrArg (·.1.session) (hlate h _))
  case engine | skipGasEstimation => exact hsame rfl
  all_goals cases h

end Bridge

end DebugBridge

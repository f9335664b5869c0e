import DebugBridge.Proofs.Bridge.Holders
import DebugBridge.Proofs.Bridge.Jobs
import DebugBridge.Proofs.Session.Faults
import DebugBridge.Proofs.Session.Table
import DebugBridge.Proofs.Wire.TooDeep

/-!
# Bridge/Ending — what ends a session

A session ends when the debugger is dropped, when its link is closed, and when the link does not
take a frame. What cannot be written is another matter: the message fails, and the session goes on
as if there had been none. There is one exception, the step at the target of a run: if it cannot be
written, the session ends (`session_ends_iff`).

As long as the session goes on, whatever is paused stays paused, but for the entries that the input
is about.
-/

namespace DebugBridge

/-! ## What a job can do -/

/-- **The ids of the entries that a job is about.** -/
def Job.named (s : Session) : Job → List RequestId
  | .ask .. => []
  | .reach target _ => [target]
  | .take e => s.named e
  | .answer replyTo _ => [replyTo]

namespace Bridge

theorem id_turn (b : Bridge) (s : Session) (job : Job) : (b.turn s job).session.id = s.id := by
  rcases job with ⟨id, trigger, content⟩ | ⟨target, content⟩ | e | ⟨replyTo, content⟩
  case ask => exact (s.quiet_forward _ _ _ _).id_eq
  case reach => exact s.id_reachTarget _ _ _
  case take => exact s.id_receive _ _ _
  case answer => exact (s.serves_reply _ _).id_eq

/-- A job leaves all entries alone but those that it is about. -/
theorem spares_turn (b : Bridge) (s : Session) (job : Job) :
    (b.turn s job).Spares s (job.named s) := by
  rcases job with ⟨id, trigger, content⟩ | ⟨target, content⟩ | e | ⟨replyTo, content⟩
  case ask => exact s.spares_forward _ _ _ _
  case reach => exact s.spares_reachTarget _ _ _
  case take => exact s.spares_receive _ _ _
  case answer => exact s.spares_reply _ _

/-- Nothing fails to be sent while the link takes frames. -/
theorem deaf_of_turn {b : Bridge} {s : Session} {job : Job}
    (h : (b.turn s job).fault = some (.transport .sendFailed)) : s.accepting = false := by
  rcases job with ⟨id, trigger, content⟩ | ⟨target, content⟩ | e | ⟨replyTo, content⟩
  case ask => exact Session.deaf_of_forward h
  case reach =>
    rw [turn, Session.fault_reachTarget] at h
    exact Session.deaf_of_send h
  case take => exact Session.deaf_of_receive h
  case answer => exact Session.deaf_of_reply h

/-- **Whether a job that is cut short ends the session**: the link does not take the frame, or the
step at the target of a run cannot be written. -/
def Fatal (b : Bridge) (s : Session) (job : Job) : Prop :=
  (b.turn s job).fault = some (.transport .sendFailed) ∨
    ∃ target content fault, job = .reach target content ∧ content.encode = .error fault

section

variable {b : Bridge} {s : Session} {job : Job}

theorem fatal_iff_of_not_reach (h : ∀ target content, job ≠ .reach target content) :
    b.Fatal s job ↔ (b.turn s job).fault = some (.transport .sendFailed) := by
  refine or_iff_left ?_
  rintro ⟨target, content, fault, heq, -⟩
  exact h target content heq

theorem isTransport_iff {t : Turn}
    (h : ∀ fault ∈ t.fault, fault.isTransport → fault = .transport .sendFailed) :
    t.fault.any (·.isTransport) ↔ t.fault = some (.transport .sendFailed) := by
  rcases hfault : t.fault with _ | fault
  · simp
  · rw [Option.any_some, Option.some.injEq]
    exact ⟨h fault hfault, fun heq => heq ▸ rfl⟩

/-- Asking fails for the link, or without an end. -/
theorem fatal_ask (id : RequestId) (trigger : String) (content : Content) :
    (b.turn s (.ask id trigger content)).fault.any (·.isTransport) ↔
      b.Fatal s (.ask id trigger content) := by
  refine (isTransport_iff fun fault hfault htransport => ?_).trans
    (fatal_iff_of_not_reach (by rintro _ _ ⟨⟩)).symm
  rcases s.tracks_forward b.calls id trigger content with ⟨hnone, -⟩ | ⟨other, hother, hreason, -⟩
  · exact absurd (hnone.symm.trans hfault) (by simp)
  · obtain rfl := Option.some.inj (hother.symm.trans hfault)
    rcases hreason with (hsend | ⟨error, rfl⟩) | rfl
    · exact hsend
    · cases htransport
    · cases htransport

/-- Answering a run fails for the link, or because the step cannot be written. -/
theorem fatal_reach (target : RequestId) (content : Content) :
    (b.turn s (.reach target content)).fault.isSome ↔ b.Fatal s (.reach target content) := by
  have hfault : (b.turn s (.reach target content)).fault = (s.send (.response target content)).fault :=
    s.fault_reachTarget b.calls target content
  rw [Fatal, hfault]
  constructor
  · intro hsome
    rcases s.send_cases (.response target content) with ⟨frame, -, hsend⟩ | ⟨fault, hreason, hsend⟩
    · rw [hsend] at hsome
      cases hsome
    · rcases hreason with rfl | ⟨error, rfl⟩
      · exact Or.inl (congrArg Turn.fault hsend)
      · exact Or.inr ⟨target, content, error, rfl,
          Session.unwritable_of_fault_send (congrArg Turn.fault hsend)⟩
  · rintro (hsend | ⟨_, _, fault, heq, hcontent⟩)
    · rw [hsend]
      rfl
    · obtain ⟨-, rfl⟩ := Job.reach.inj heq
      rw [Session.send_unwritable (e := .response target content) hcontent]
      rfl

/-- Nothing that the debugger asks for fails but for the link. -/
theorem fatal_take (e : Envelope) :
    (b.turn s (.take e)).fault.any (·.isTransport) ↔ b.Fatal s (.take e) := by
  refine (isTransport_iff fun fault hfault _ => ?_).trans
    (fatal_iff_of_not_reach (by rintro _ _ ⟨⟩)).symm
  rcases s.sound_receive b.config.scopeMode b.hasEngine e with hnone | hfailed
  · exact absurd (hnone.symm.trans hfault) (by simp)
  · exact (Option.some.inj (hfailed.symm.trans hfault)).symm

theorem fatal_answer {replyTo : RequestId} {content : Content} (hflat : content.Flat) :
    (b.turn s (.answer replyTo content)).fault.isSome ↔ b.Fatal s (.answer replyTo content) := by
  refine Iff.trans ?_ (fatal_iff_of_not_reach (by rintro _ _ ⟨⟩)).symm
  rcases s.sound_reply replyTo hflat with hnone | hfailed
  · simp [turn, hnone]
  · simp [turn, hfailed]

end

theorem session_settle (b : Bridge) (t : Turn) :
    (b.settle t).1.session = if t.fault.any (·.isTransport) then none else some t.session := by
  rw [settle]
  split <;> rfl

/-- What is left of the session when a condition decides whether it ends. -/
theorem session_of_ite {c fatal : Prop} [Decidable c] {after : Option Session} {next : Session}
    (hafter : after = if c then none else some next) (hc : c ↔ fatal) :
    (after = none ↔ fatal) ∧ ∀ t, after = some t → t = next := by
  subst hafter
  split
  · next hyes => exact ⟨⟨fun _ => hc.1 hyes, fun _ => rfl⟩, by rintro t ⟨⟩⟩
  · next hno => exact ⟨⟨by rintro ⟨⟩, fun hfatal => absurd (hc.2 hfatal) hno⟩,
      fun t ht => (Option.some.inj ht).symm⟩

/-- **A job ends the session if it is fatal**, and else the session goes on as its turn leaves
it. -/
theorem session_of_job? {b : Bridge} {s : Session} (hs : b.session = some s) {input : Input}
    {job : Job} (h : b.job? s input = some job) :
    ((b.step input).1.session = none ↔ b.Fatal s job) ∧
      ∀ t, (b.step input).1.session = some t → t = (b.turn s job).session := by
  rw [step_of_job? hs h]
  rcases job with ⟨id, trigger, content⟩ | ⟨target, content⟩ | e | ⟨replyTo, content⟩
  case ask =>
    exact session_of_ite (session_settle b.calling (returning b.calls _))
      (fatal_ask id trigger content)
  case reach =>
    refine session_of_ite ?_ (fatal_reach target content)
    rw [carryOut]
    split <;> rfl
  case take => exact session_of_ite (session_settle b _) (fatal_take e)
  case answer =>
    refine session_of_ite ?_ (fatal_answer (flat_of_job? h))
    rw [carryOut]
    split <;> rfl

/-- **A request to the debugger that cannot be written fails alone**: the bridge goes on as if the
call had not been made. -/
theorem step_unwritable {b : Bridge} {s : Session} (hs : b.session = some s) {input : Input}
    {id : RequestId} {trigger : String} {content : Content}
    (h : b.job? s input = some (.ask id trigger content)) (hid : s.pending.get? id = none)
    {fault : WireError} (hcontent : content.encode = .error fault) :
    b.step input = (b.calling, [.finish b.calls (.failed (.wire fault))]) := by
  have hcalling : { b.calling with session := some s } = b.calling := by
    rw [calling, ← hs]
  rw [step_of_job? hs h, carryOut, turn, Session.forward_unwritable hid hcontent]
  exact congrArg (·, _) hcalling

/-- **A step at the target of a run that cannot be written** takes all calls that wait with it. -/
theorem effects_of_target_unwritable {b : Bridge} {s : Session} (hs : b.session = some s)
    {input : Input} {target : RequestId} {content : Content}
    (h : b.job? s input = some (.reach target content)) {fault : WireError}
    (hcontent : content.encode = .error fault) :
    (b.step input).2 = .finish b.calls (.failed (.wire fault)) :: s.close := by
  rw [step_of_job? hs h, carryOut, turn, Session.reachTarget_unwritable hcontent]
  rfl

/-- **When a session ends.** -/
theorem session_step_eq_none_iff {b : Bridge} {s : Session} (hs : b.session = some s)
    (input : Input) :
    (b.step input).1.session = none ↔ input = .disconnect ∨ input = .linkClosed s.id ∨
      ∃ job, b.job? s input = some job ∧ b.Fatal s job := by
  constructor
  · intro hnone
    by_cases hdrop : input = .disconnect
    · exact Or.inl hdrop
    by_cases hclose : input = .linkClosed s.id
    · exact Or.inr (Or.inl hclose)
    rcases hjob : b.job? s input with _ | job
    · obtain ⟨_, _, ht⟩ := session_of_no_job hs hjob hdrop hclose
      rw [ht] at hnone
      cases hnone
    · exact Or.inr (Or.inr ⟨job, rfl, (session_of_job? hs hjob).1.1 hnone⟩)
  · rintro (rfl | rfl | ⟨job, hjob, hfatal⟩)
    · exact b.session_disconnect
    · exact session_linkClosed hs
    · exact (session_of_job? hs hjob).1.2 hfatal

/-- **A session that goes on** is as the job of the input leaves it. Without a job it is almost as
it was. -/
theorem session_of_live {b : Bridge} {s t : Session} (hs : b.session = some s) {input : Input}
    (ht : (b.step input).1.session = some t) :
    (b.job? s input = none ∧
        ∃ accepting runtime, t = { s with accepting, state := { s.state with runtime } }) ∨
      ∃ job, b.job? s input = some job ∧ t = (b.turn s job).session := by
  rcases hjob : b.job? s input with _ | job
  · have hdrop : input ≠ .disconnect := by
      rintro rfl
      rw [b.session_disconnect] at ht
      cases ht
    have hclose : input ≠ .linkClosed s.id := by
      rintro rfl
      rw [session_linkClosed hs] at ht
      cases ht
    obtain ⟨accepting, runtime, hafter⟩ := session_of_no_job hs hjob hdrop hclose
    exact Or.inl ⟨rfl, accepting, runtime, Option.some.inj (ht.symm.trans hafter)⟩
  · exact Or.inr ⟨job, rfl, (session_of_job? hs hjob).2 t ht⟩

/-- **What is pending while the session goes on**: all entries but those that the job is about. -/
theorem get?_of_live {b : Bridge} {s t : Session} (hs : b.session = some s) {input : Input}
    (ht : (b.step input).1.session = some t) :
    t.id = s.id ∧ ∀ id held, (∀ job ∈ b.job? s input, id ∉ job.named s) →
      s.pending.get? id = some held → t.pending.get? id = some held := by
  rcases session_of_live hs ht with ⟨-, accepting, runtime, rfl⟩ | ⟨job, hjob, rfl⟩
  · exact ⟨rfl, fun id held _ hget => hget⟩
  · exact ⟨b.id_turn s job, fun id held hid hget => b.spares_turn s job id held (hid job hjob) hget⟩

end Bridge

namespace World

/-- What the engine keeps it keeps until it is done with it. -/
theorem holds_kept_input {w : World} {index : Nat} {call : CallId}
    (h : w.Holds (.kept index) call) (input : Input) :
    (w.step (.input input)).Holds (.kept index) call := by
  obtain ⟨injection, hinjection, hpaused⟩ := h
  refine ⟨injection, ?_, hpaused⟩
  obtain ⟨hlt, -⟩ := List.getElem?_eq_some_iff.1 hinjection
  show (w.kept ++ _)[index]? = some injection
  rw [List.getElem?_append_left hlt]
  exact hinjection

/-- **What ends a session.** It ends when the debugger is dropped, when its link is closed, when the
link does not take the frame that an input has the session send, and when the step at the target of
a run cannot be written; and in no other way. While it goes on it is the same session, and every
call that waits keeps waiting with its holder, unless it waits under an id that the input is about.
A request to the debugger that cannot be written fails alone, whereas a step at the target takes all
calls that wait with it. -/
theorem session_ends_iff {w : World} {s : Session} (live : w.bridge.session = some s)
    (input : Input) :
    let next := w.step (.input input)
    let job? := w.bridge.job? s input
    (next.bridge.session = none ↔ input = .disconnect ∨ input = .linkClosed s.id ∨
      (∃ job ∈ job?, (w.bridge.turn s job).fault = some (.transport .sendFailed)) ∨
      ∃ target content fault, job? = some (.reach target content) ∧
        content.encode = .error fault) ∧
    (∀ job ∈ job?, (w.bridge.turn s job).fault = some (.transport .sendFailed) →
      s.accepting = false) ∧
    (∀ t, next.bridge.session = some t → t.id = s.id ∧ ∀ holder call, w.Holds holder call →
      (∀ job ∈ job?, ∀ id ∈ job.named s, holder ≠ .entry id) → next.Holds holder call) ∧
    (∀ id trigger content fault, job? = some (.ask id trigger content) →
      s.pending.get? id = none → content.encode = .error fault →
      w.respond (.input input) =
        (w.bridge.calling, [.finish w.bridge.calls (.failed (.wire fault))])) ∧
    (∀ target content fault, job? = some (.reach target content) →
      content.encode = .error fault →
      (w.respond (.input input)).2 =
        .finish w.bridge.calls (.failed (.wire fault)) :: s.close) := by
  intro next job?
  refine ⟨?_, fun job _ => Bridge.deaf_of_turn, ?_, ?_, ?_⟩
  · refine (Bridge.session_step_eq_none_iff live input).trans (or_congr_right (or_congr_right ?_))
    constructor
    · rintro ⟨job, hjob, hsend | ⟨target, content, fault, rfl, hcontent⟩⟩
      · exact Or.inl ⟨job, hjob, hsend⟩
      · exact Or.inr ⟨target, content, fault, hjob, hcontent⟩
    · rintro (⟨job, hjob, hsend⟩ | ⟨target, content, fault, hjob, hcontent⟩)
      · exact ⟨job, hjob, Or.inl hsend⟩
      · exact ⟨_, hjob, Or.inr ⟨target, content, fault, rfl, hcontent⟩⟩
  · intro t ht
    obtain ⟨hid, hstays⟩ := Bridge.get?_of_live live ht
    refine ⟨hid, fun holder call hholds hnamed => ?_⟩
    rcases holder with id | index
    · obtain ⟨s', hs', hget⟩ := hholds
      obtain rfl := Option.some.inj (live.symm.trans hs')
      exact ⟨t, ht, hstays id _ (fun job hjob hmem => hnamed job hjob id hmem rfl) hget⟩
    · exact holds_kept_input hholds input
  · exact fun id trigger content fault hjob hid hcontent =>
      Bridge.step_unwritable live hjob hid hcontent
  · exact fun target content fault hjob hcontent =>
      Bridge.effects_of_target_unwritable live hjob hcontent

/-! ## A step that nests too deep

A debugger asks to run up to a program counter (`running`), and the step that gets there holds more
containers one in the other than can be written. -/

/-- A debugger asks to run up to a program counter. -/
def running : List Move :=
  [.input (.attach .established),
    .input (.frame 1 ("[\"x\",\"request\",\"\",\x7b\"type\":\"runUntilPc\"," ++
      "\"pc\":7,\"stepId\":\"\"\x7d]").toUTF8.toList)]

theorem run_running :
    let w := run (.new .default) running
    w.bridge.calls = 0 ∧ ∃ s ∈ w.bridge.session, s.accepting = true ∧
      s.state.runUntil = some ⟨"x", 7⟩ ∧ s.pending.get? "a" = none := by decide +kernel

theorem legal_running : Legal (.new .default) running :=
  ⟨allows_of_free rfl rfl rfl, allows_of_free rfl rfl rfl, trivial⟩

/-- A content that nests too deep. -/
def deep : Content :=
  .chain Wire.maxDepth

/-- A step at the program counter up to which `running` runs. -/
def deepStep : Step :=
  ⟨.normalize "", 7, "", false, deep⟩

theorem encode_deep : deep.encode = .error (.tooDeep 1281) :=
  (Content.hasChain_chain _).encode_eq (Nat.le_refl _)

theorem encode_deepStep : (deepStep.content []).encode = .error (.tooDeep 1281) :=
  (Step.hasChain_content (Content.hasChain_chain _)).encode_eq (Nat.le_refl _)

theorem session_ends_iff_running :
    let w := run (.new .default) running
    let input : Input := .report (.exception deep) "a"
    w.respond (.input input) = (w.bridge.calling, [.finish 0 (.failed (.wire (.tooDeep 1281)))]) ∧
      (w.step (.input input)).bridge.session = w.bridge.session := by
  intro w input
  obtain ⟨hcalls, s, live, -, -, hnew⟩ := run_running
  have hrespond := (session_ends_iff live input).2.2.2.1 "a" Trigger.exception deep _ rfl hnew
    encode_deep
  refine ⟨hcalls ▸ hrespond, ?_⟩
  rw [bridge_step, hrespond]
  rfl

/-- **A session that ends although its link takes frames**, and nobody closed it: the step at the
target of the run nests too deep. -/
theorem session_ended_by_deepStep :
    let w := run (.new .default) running
    let m : Move := .input (.report (.step deepStep) "a")
    Legal (.new .default) (running ++ [m]) ∧
    (∃ s ∈ w.bridge.session, s.accepting = true) ∧
    (0, .failed (.wire (.tooDeep 1281))) ∈ (w.respond m).2.filterMap Effect.return? ∧
    (w.step m).bridge.session = none := by
  intro w m
  obtain ⟨hcalls, s, live, haccepting, hrun, -⟩ := run_running
  have hjob : w.bridge.job? s (.report (.step deepStep) "a") =
      some (.reach "x" (deepStep.content [])) := by
    have hdecide : Policy.decide s.state w.bridge.skipGasEstimation w.bridge.config.scopeMode
        deepStep = .runUntilHit "x" := by simp [Policy.decide, deepStep, hrun]
    rw [Bridge.job?, hdecide]
  refine ⟨along_append.2 ⟨legal_running, allows_of_free rfl rfl rfl, trivial⟩,
    ⟨s, live, haccepting⟩, ?_, ?_⟩
  · have heffects : (w.respond m).2 = _ :=
      Bridge.effects_of_target_unwritable live hjob encode_deepStep
    rw [heffects, hcalls]
    exact List.mem_cons_self
  · exact (Bridge.session_of_job? live hjob).1.2
      (Or.inr ⟨"x", _, .tooDeep 1281, rfl, encode_deepStep⟩)

end World

end DebugBridge

import DebugBridge.Proofs.Bridge.Messages
import DebugBridge.Proofs.Content.Setting

/-!
# Bridge/Running — up to a program counter, and no step before

A debugger that asks to run up to a program counter hears of no step until one gets there
(`run_until_discipline`). Whether a step gets there depends on its program counter and on whether it
is suppressed, and on nothing else that the debugger has set up (`decide_of_running`). The run ends
with the step, which is sent as the answer to the request, or with a newer run, which takes its
place; nothing else ends it while the session lives (`runUntil_of_live`).

For the ledger of requests this means that the request of a run is without an answer until the run
ends, and is answered by the move that ends it (`run_unanswered_until_end`).
-/

namespace DebugBridge

/-! ## The content of a step -/

/-- **A step that is sent without tags** has an empty array of them. -/
theorem Step.specialEvents_content (step : Step) :
    ∃ id, (step.content []).field? "specialEvents" = some (.node id) ∧
      (step.content []).node? id = some (.array []) :=
  Content.set_emptyArray _ _

/-! ## Steps during a run -/

theorem EngineEvent.trigger_ne_step {event : EngineEvent} (h : ∀ step, event ≠ .step step) :
    event.trigger ≠ Trigger.step := by
  rcases event with step | _ | _ | _ | _ | _ | _
  case step => exact absurd rfl (h step)
  all_goals
    dsimp only [EngineEvent.trigger]
    decide

theorem EngineRequest.trigger_ne_step (request : EngineRequest) :
    request.trigger ≠ Trigger.step := by
  rcases request
  all_goals
    dsimp only [EngineRequest.trigger]
    decide

/-- Whether a step gets to the target of a run: it is at the program counter, and not suppressed. -/
def Step.GetsTo (step : Step) (run : RunUntil) (skipGas : Bool) : Prop :=
  step.pc = run.pc ∧ (skipGas && step.estimatingGas) = false

instance (step : Step) (run : RunUntil) (skipGas : Bool) : Decidable (step.GetsTo run skipGas) :=
  inferInstanceAs (Decidable (_ ∧ _))

/-- **What becomes of a step during a run.** -/
theorem Policy.decide_of_running {state : DebuggerState} {run : RunUntil}
    (h : state.runUntil = some run) (skipGas : Bool) (mode : ScopeMode) (step : Step) :
    decide state skipGas mode step =
      if step.GetsTo run skipGas then .runUntilHit run.id else .skip := by
  rw [decide, h]
  rcases hskip : skipGas && step.estimatingGas
  · by_cases hpc : step.pc = run.pc <;> simp [Step.GetsTo, hpc, hskip]
  · simp [Step.GetsTo, hskip]

namespace Bridge

section

variable {b : Bridge} {s : Session} {run : RunUntil} (hs : b.session = some s)
  (hrun : s.state.runUntil = some run)

include hs hrun

/-- **A step that does not get there is passed over.** -/
theorem step_of_not_getsTo {step : Step} (h : ¬step.GetsTo run b.skipGasEstimation)
    (id : RequestId) :
    b.step (.report (.step step) id) = (b.calling, [.finish b.calls .skipped]) := by
  show b.report (.step step) id = _
  rw [report, call_of_some hs]
  dsimp only [calling]
  rw [Policy.decide_of_running hrun, if_neg h]

/-- **A step that gets there is the answer to the request**, if the session goes on. -/
theorem sent_of_getsTo {step : Step} (h : step.GetsTo run b.skipGasEstimation) (id : RequestId)
    (live : (b.step (.report (.step step) id)).1.session.isSome) :
    (b.step (.report (.step step) id)).2.filterMap Effect.sent? =
      [(s.id, .response run.id (step.content []))] := by
  have hjob : b.job? s (.report (.step step) id) = some (.reach run.id (step.content [])) := by
    rw [job?, Policy.decide_of_running hrun, if_pos h]
  have hfails (call : CallId) (error : BridgeError) :
      Effect.sent? (.finish call (.failed error)) = none := rfl
  have hsends := s.sends_reachTarget b.calls run.id (step.content [])
  rw [step_of_job? hs hjob, carryOut, turn] at live ⊢
  rcases hfault : (s.reachTarget b.calls run.id (step.content [])).fault with _ | fault
  · rw [Turn.Sends, if_pos hfault] at hsends
    rw [filterMap_ite hfails, filterMap_returning hfails]
    exact hsends
  · rw [hfault] at live
    cases live

/-- **A step that gets there** is sent as the answer to the request, and its call waits under the id
of the request. -/
theorem step_of_getsTo {step : Step} (h : step.GetsTo run b.skipGasEstimation)
    (haccepting : s.accepting = true) {value : Json} (hvalue : (step.content []).encode = .ok value)
    (id : RequestId) :
    (b.step (.report (.step step) id)).2.filterMap Effect.sent? =
        [(s.id, .response run.id (step.content []))] ∧
      ∃ t, (b.step (.report (.step step) id)).1.session = some t ∧ t.state.runUntil = none ∧
        t.pending.get? run.id = some (.resume b.calls) := by
  have hdecide : Policy.decide s.state b.skipGasEstimation b.config.scopeMode step =
      .runUntilHit run.id := by rw [Policy.decide_of_running hrun, if_pos h]
  obtain ⟨frame, hframe⟩ :=
    s.frame_of_accepting haccepting (e := .response run.id (step.content [])) hvalue
  have hreport : b.step (.report (.step step) id) = _ := report_target hs hdecide hframe id
  refine ⟨sent_of_getsTo hs hrun h id (by rw [hreport]; rfl), ?_⟩
  rw [hreport]
  refine ⟨_, rfl, rfl, ?_⟩
  rw [Pending.get?_mk, KeyMap.get?_insert, if_pos rfl]

/-- **The run stays under way** while the session lives, unless a step gets there or a newer run
takes its place. -/
theorem runUntil_of_live {input : Input} {t : Session} (ht : (b.step input).1.session = some t)
    (h : ∀ step id, input = .report (.step step) id → ¬step.GetsTo run b.skipGasEstimation) :
    t.state.runUntil =
      (((b.message? input).bind fun (s, e) => s.begins? e).or (some run)) := by
  rcases state_of_live hs ht with ⟨e, hmessage, -, rfl⟩ |
    ⟨hmessage, -, hstays | ⟨target, content, hjob⟩⟩
  · rw [Session.runUntil_receive, hrun, hmessage]
    rfl
  · rw [hstays, hrun, hmessage]
    rfl
  · cases assigned hjob with
    | @reaching step _ id hdecide =>
      rw [Policy.decide_of_running hrun, if_neg (h step id rfl)] at hdecide
      cases hdecide

/-- **No step is asked about.** -/
theorem trigger_of_sent {input : Input} {message : SessionId × Envelope}
    (hmem : message ∈ (b.step input).2.filterMap Effect.sent?)
    (htype : message.2.type = .request) : message.2.trigger ≠ Trigger.step := by
  obtain ⟨t, ht, -, hrequest⟩ := session_of_sent hmem
  obtain rfl := Option.some.inj (hs.symm.trans ht)
  obtain ⟨made, content, hjob⟩ := hrequest htype
  generalize message.2.trigger = trigger at hjob
  cases assigned hjob with
  | forwarding _ hdecide =>
    rw [Policy.decide_of_running hrun] at hdecide
    split at hdecide <;> cases hdecide
  | reporting _ hevent => exact EngineEvent.trigger_ne_step hevent
  | requesting request _ => exact request.trigger_ne_step

end

/-- What is sent when a message begins a run while one is under way. -/
theorem sent_of_begins? {b : Bridge} {s : Session} {e : Envelope} {input : Input}
    {run previous : RunUntil} (hmessage : b.message? input = some (s, e))
    (hbegins : s.begins? e = some run) (hprevious : s.state.runUntil = some previous) :
    (s.accepting = true → (b.step input).1.session.isSome) ∧
      ((b.step input).1.session.isSome → (b.step input).2.filterMap Effect.sent? =
        [(s.id, .response previous.id (Reply.error Reply.superseded))]) := by
  have hsends := Session.sends_receive_of_begins? hbegins hprevious b.config.scopeMode b.hasEngine
  have hfault := Session.fault_receive_of_begins? hbegins b.config.scopeMode b.hasEngine
  rcases settled_of_message? hmessage with ⟨hnone, hstep⟩ | ⟨hfailed, hstep⟩
  · rw [Turn.Sends, if_pos hnone] at hsends
    rw [hstep]
    exact ⟨fun _ => rfl, fun _ => hsends⟩
  · rw [hstep]
    refine ⟨fun haccepting => ?_, fun hlive => by cases hlive⟩
    rw [hfailed, Session.fault_supersede (s := s.awaiting e.id) haccepting] at hfault
    cases hfault

end Bridge

namespace World

/-! ## While a run is under way -/

/-- **Whether a move leaves a run under way**: the session goes on, no step gets to the target, and
no newer run begins. -/
structure KeepsRun (w : World) (run : RunUntil) (m : Move) : Prop where
  live : (w.step m).bridge.session.isSome
  unreached : ∀ step id, m = .input (.report (.step step) id) →
    ¬step.GetsTo run w.bridge.skipGasEstimation
  unreplaced : w.begins? m = none

/-- **The run after a move** of a session that goes on. -/
theorem runUntil_of_step {w : World} {s t : Session} {run : RunUntil} {m : Move}
    (hs : w.bridge.session = some s) (hrun : s.state.runUntil = some run)
    (ht : (w.step m).bridge.session = some t)
    (unreached : ∀ step id, m = .input (.report (.step step) id) →
      ¬step.GetsTo run w.bridge.skipGasEstimation) :
    t.id = s.id ∧ t.state.runUntil = (w.begins? m).or (some run) := by
  rcases m with input | _ | _ | _
  case input =>
    exact ⟨(Bridge.get?_of_live hs ht).1,
      Bridge.runUntil_of_live hs hrun ht fun step id heq => unreached step id (congrArg _ heq)⟩
  all_goals
    obtain rfl := Option.some.inj (hs.symm.trans ht)
    exact ⟨rfl, hrun⟩

/-- The run that a move begins is under way after it. -/
theorem runUntil_of_begins? {w : World} {t : Session} {run : RunUntil} {m : Move}
    (hbegins : w.begins? m = some run) (ht : (w.step m).bridge.session = some t) :
    t.state.runUntil = some run ∧ ∀ s ∈ w.bridge.session, t.id = s.id := by
  rcases m with input | _ | _ | _
  case input =>
    obtain ⟨⟨s, e⟩, hmessage, hbegins⟩ := Option.bind_eq_some_iff.1 hbegins
    have hs := live_of_message? hmessage
    obtain ⟨-, hstep⟩ := Bridge.keep_of_message? hmessage ht
    rw [bridge_step, respond, hstep] at ht
    obtain rfl := Option.some.inj ht
    refine ⟨?_, fun other hother => ?_⟩
    · rw [Session.runUntil_receive, show s.begins? e = some run from hbegins]
      rfl
    · obtain rfl := Option.some.inj (hs.symm.trans hother)
      exact s.id_receive _ _ _
  all_goals cases hbegins

/-- What a move sends that begins a run while one is under way. -/
theorem sent_of_begins? {w : World} {s : Session} {newer previous : RunUntil} {m : Move}
    (hs : w.bridge.session = some s) (hbegins : w.begins? m = some newer)
    (hprevious : s.state.runUntil = some previous) :
    (s.accepting = true → (w.step m).bridge.session.isSome) ∧
      ((w.step m).bridge.session.isSome → (w.respond m).2.filterMap Effect.sent? =
        [(s.id, .response previous.id (Reply.error Reply.superseded))]) := by
  rcases m with input | _ | _ | _
  case input =>
    obtain ⟨⟨other, e⟩, hmessage, hnewer⟩ := Option.bind_eq_some_iff.1 hbegins
    obtain rfl := Option.some.inj (hs.symm.trans (live_of_message? hmessage))
    exact Bridge.sent_of_begins? hmessage hnewer hprevious
  all_goals cases hbegins

/-- **A run stays under way** as long as no move ends it. -/
theorem runUntil_of_along {w : World} {s : Session} {run : RunUntil} {moves : List Move}
    (hs : w.bridge.session = some s) (hrun : s.state.runUntil = some run)
    (along : Along (fun v m => v.KeepsRun run m) w moves) :
    ∃ t, (w.run moves).bridge.session = some t ∧ t.id = s.id ∧ t.state.runUntil = some run := by
  refine along.invariant (I := fun v => ∃ t, v.bridge.session = some t ∧ t.id = s.id ∧
    t.state.runUntil = some run) ?_ ⟨s, hs, rfl, hrun⟩
  rintro v m keeps ⟨t, ht, hid, hrun⟩
  obtain ⟨u, hu⟩ := Option.isSome_iff_exists.1 keeps.live
  obtain ⟨hid', hrun'⟩ := runUntil_of_step ht hrun hu keeps.unreached
  rw [keeps.unreplaced] at hrun'
  exact ⟨u, hu, hid'.trans hid, hrun'⟩

/-- **Up to a program counter, and no step before.** From the request that begins a run on, until a
step gets to its target or a newer run takes its place, every step that does not get there is passed
over and changes nothing, and the debugger is not asked about any step. A step that gets there is
sent without tags as the answer to the request, which ends the run, and waits under its id. A newer
run has the request answered with an error and takes its place; and as long as the session lives,
nothing else has an effect on which run is under way. -/
theorem run_until_discipline {w : World} {m : Move} {run : RunUntil}
    (begins : w.begins? m = some run) (live : (w.step m).bridge.session.isSome) {between : List Move}
    (undisturbed : Along (fun v m => v.KeepsRun run m) (w.step m) between) :
    let v := (w.step m).run between
    ∃ s, v.bridge.session = some s ∧ (∀ before ∈ w.bridge.session, s.id = before.id) ∧
      s.state.runUntil = some run ∧
    (∀ step id, ¬step.GetsTo run v.bridge.skipGasEstimation →
      v.respond (.input (.report (.step step) id)) =
        (v.bridge.calling, [.finish v.bridge.calls .skipped])) ∧
    (∀ m, ∀ message ∈ (v.respond m).2.filterMap Effect.sent?, message.2.type = .request →
      message.2.trigger ≠ Trigger.step) ∧
    (∀ step id value, step.GetsTo run v.bridge.skipGasEstimation → s.accepting = true →
      (step.content []).encode = .ok value →
      let m : Move := .input (.report (.step step) id)
      (v.respond m).2.filterMap Effect.sent? = [(s.id, .response run.id (step.content []))] ∧
      (∃ tags, (step.content []).field? "specialEvents" = some (.node tags) ∧
        (step.content []).node? tags = some (.array [])) ∧
      ∃ t, (v.step m).bridge.session = some t ∧ t.id = s.id ∧ t.state.runUntil = none ∧
        t.pending.get? run.id = some (.resume v.bridge.calls)) ∧
    (∀ m newer, v.begins? m = some newer →
      (s.accepting = true → (v.step m).bridge.session.isSome) ∧
      ∀ t, (v.step m).bridge.session = some t → t.state.runUntil = some newer ∧
        (v.respond m).2.filterMap Effect.sent? =
          [(s.id, .response run.id (Reply.error Reply.superseded))] ∧
        (Reply.error Reply.superseded).field? "message" =
          some (.string ("Error: " ++ Reply.superseded))) ∧
    (∀ m t, (v.step m).bridge.session = some t → v.begins? m = none →
      (∀ step id, m = .input (.report (.step step) id) →
        ¬step.GetsTo run v.bridge.skipGasEstimation) →
      t.state.runUntil = some run) := by
  intro v
  obtain ⟨first, hfirst⟩ := Option.isSome_iff_exists.1 live
  obtain ⟨hbegun, hsame⟩ := runUntil_of_begins? begins hfirst
  obtain ⟨s, hs, hid, hrun⟩ := runUntil_of_along hfirst hbegun undisturbed
  refine ⟨s, hs, fun before hbefore => hid.trans (hsame before hbefore), hrun,
    fun step id => ?_, fun m message hmem htype => ?_,
    fun step id value hgets haccepting hvalue => ?_,
    fun m newer hbegins => ?_, fun m t ht hnone unreached => ?_⟩
  · exact fun hgets => Bridge.step_of_not_getsTo hs hrun hgets id
  · rcases m with input | injection | injection | call
    case input => exact Bridge.trigger_of_sent hs hrun hmem htype
    case resume | letGo =>
      rw [respond, Effect.filterMap_sent?_wakes] at hmem
      cases hmem
    case cancel => cases hmem
  · obtain ⟨hsent, t, ht, hended, hget⟩ :=
      Bridge.step_of_getsTo hs hrun hgets haccepting hvalue id
    exact ⟨hsent, step.specialEvents_content, t, ht, (Bridge.get?_of_live hs ht).1, hended, hget⟩
  · obtain ⟨hlive, hsent⟩ := sent_of_begins? hs hbegins hrun
    exact ⟨hlive, fun t ht => ⟨(runUntil_of_begins? hbegins ht).1,
      hsent (Option.isSome_iff_exists.2 ⟨t, ht⟩), Reply.field?_error _⟩⟩
  · rw [(runUntil_of_step hs hrun ht unreached).2, hnone]
    rfl

/-- A step one past the target of the run. -/
def passTarget : Move :=
  .input (.report (.step { targetStep with pc := 8 }) "a")

theorem run_until_discipline_passTarget :
    let start := (World.new .default).step (.input (.attach .established))
    ∃ m, running = [.input (.attach .established), m] ∧ start.begins? m = some ⟨"x", 7⟩ ∧
      Along (fun v m => v.KeepsRun ⟨"x", 7⟩ m) (start.step m) [passTarget] ∧
      let v := (start.step m).run [passTarget]
      v.respond passTarget = (v.bridge.calling, [.finish v.bridge.calls .skipped]) ∧
      (v.respond reachTarget).2.filterMap Effect.sent? =
        [(1, .response "x" (targetStep.content []))] := by
  intro start
  let m := running[1]
  have begins : start.begins? m = some ⟨"x", 7⟩ := by decide +kernel
  have live : (start.step m).bridge.session.isSome := by decide +kernel
  have hlater : ((start.step m).run [passTarget]).bridge.session.isSome ∧
      ((start.step m).run [passTarget]).bridge.session.all fun s => s.id == 1 && s.accepting := by
    decide +kernel
  have undisturbed : Along (fun v m => v.KeepsRun ⟨"x", 7⟩ m) (start.step m) [passTarget] := by
    refine ⟨⟨hlater.1, ?_, rfl⟩, trivial⟩
    rintro step id ⟨⟩ hgets
    exact absurd hgets.1 (by decide)
  obtain ⟨s, hs, -, -, hpassed, -, hreached, -⟩ := run_until_discipline begins live undisturbed
  obtain ⟨hid, haccepting⟩ : s.id = 1 ∧ s.accepting = true := by
    have hsession := hlater.2
    rw [hs] at hsession
    simpa using hsession
  obtain ⟨value, hvalue⟩ := exists_encode_targetStep
  refine ⟨m, rfl, begins, undisturbed, hpassed _ _ fun hgets => absurd hgets.1 (by decide), ?_⟩
  have hsent := (hreached targetStep "a" value ⟨rfl, Bool.and_false _⟩ haccepting hvalue).1
  rw [hid] at hsent
  exact hsent

/-! ## The answer to a run -/

/-- **How a run is answered**: with the step that gets to its target, or with an error when a newer
run takes its place. -/
inductive AnswersRun (w : World) (sid : SessionId) (run : RunUntil) : Move → Prop where
  | reached {step : Step} {id : RequestId} (gets : step.GetsTo run w.bridge.skipGasEstimation)
      (sent : (w.respond (.input (.report (.step step) id))).2.filterMap Effect.sent? =
        [(sid, .response run.id (step.content []))]) :
      AnswersRun w sid run (.input (.report (.step step) id))
  | replaced {m : Move} {newer : RunUntil} (begins : w.begins? m = some newer)
      (sent : (w.respond m).2.filterMap Effect.sent? =
        [(sid, .response run.id (Reply.error Reply.superseded))]) :
      AnswersRun w sid run m

/-- **A move of a session that goes on leaves the run under way or answers it.** -/
theorem keepsRun_or_answersRun {w : World} {s : Session} {run : RunUntil} {m : Move}
    (hs : w.bridge.session = some s) (hrun : s.state.runUntil = some run)
    (live : (w.step m).bridge.session.isSome) : w.KeepsRun run m ∨ w.AnswersRun s.id run m := by
  rcases hbegins : w.begins? m with _ | newer
  · by_cases hgets : ∃ step id, m = .input (.report (.step step) id) ∧
        step.GetsTo run w.bridge.skipGasEstimation
    · obtain ⟨step, id, rfl, hgets⟩ := hgets
      exact .inr (.reached hgets (Bridge.sent_of_getsTo hs hrun hgets id live))
    · exact .inl ⟨live, fun step id heq hgets' => hgets ⟨step, id, heq, hgets'⟩, hbegins⟩
  · exact .inr (.replaced hbegins ((sent_of_begins? hs hbegins hrun).2 live))

/-- The answer to a run is an answer of the ledger, and the only one of its move. -/
theorem AnswersRun.answers_step {w : World} {sid : SessionId} {run : RunUntil} {m : Move}
    (h : w.AnswersRun sid run m) : (w.step m).answers = w.answers ++ [(sid, run.id)] := by
  rw [World.answers_step, Effect.filterMap_answer?_eq]
  rcases h with ⟨-, sent⟩ | ⟨-, sent⟩ <;> rw [sent] <;> rfl

/-- **The request of the run under way is without an answer**: of the requests under its id one more
has come in than was served. -/
theorem InBalance.count_of_running {w : World} (h : w.InBalance) {s : Session} {run : RunUntil}
    (hs : w.bridge.session = some s) (hrun : s.state.runUntil = some run) :
    w.requests.count (s.id, run.id) = w.serving (s.id, run.id) + 1 := by
  rw [h.balance s hs, Session.dues, hrun]
  exact congrArg (_ + ·) List.count_singleton_self

/-- **A run is answered at its target or when a newer run takes its place, and never else.** As long
as the session lives, from the request that begins the run on, one request under its id is without
an answer until a move answers the run; and that move answers it and nothing besides. -/
theorem run_unanswered_until_end {w : World} (reachable : w.Reachable) {m : Move} {run : RunUntil}
    (begins : w.begins? m = some run) {later : List Move} (legal : Legal w (m :: later))
    (living : Along (fun v m => (v.step m).bridge.session.isSome) w (m :: later)) :
    ∃ s, (w.step m).bridge.session = some s ∧
      (∀ between, between <+: later → Along (fun v m => v.KeepsRun run m) (w.step m) between →
        let v := (w.step m).run between
        v.requests.count (s.id, run.id) = v.serving (s.id, run.id) + 1) ∧
      (Along (fun v m => v.KeepsRun run m) (w.step m) later ∨
        ∃ between last rest, later = between ++ last :: rest ∧
          Along (fun v m => v.KeepsRun run m) (w.step m) between ∧
          let v := (w.step m).run between
          v.AnswersRun s.id run last ∧ (v.step last).answers = v.answers ++ [(s.id, run.id)]) := by
  obtain ⟨allowed, legal⟩ := legal
  obtain ⟨live, living⟩ := living
  obtain ⟨s, hs⟩ := Option.isSome_iff_exists.1 live
  have hrun := (runUntil_of_begins? begins hs).1
  refine ⟨s, hs, ?_, ?_⟩
  · rintro between ⟨rest, rfl⟩ keeps
    obtain ⟨t, ht, hid, hrun'⟩ := runUntil_of_along hs hrun keeps
    have balance := (along_append.1 legal).1.invariant InBalance.step
      (reachable.inBalance.step allowed)
    rw [← hid]
    exact balance.count_of_running ht hrun'
  · refine (along_or_exists (fun v m => v.KeepsRun run m) (w.step m) later).imp_right ?_
    rintro ⟨between, last, rest, rfl, keeps, hnot⟩
    obtain ⟨t, ht, hid, hrun'⟩ := runUntil_of_along hs hrun keeps
    have hlast := (along_append.1 living).2.1
    have answersRun := (keepsRun_or_answersRun ht hrun' hlast).resolve_left hnot
    rw [hid] at answersRun
    exact ⟨between, last, rest, rfl, keeps, answersRun, answersRun.answers_step⟩

end World

end DebugBridge

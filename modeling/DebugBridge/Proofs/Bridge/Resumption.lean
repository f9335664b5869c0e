import DebugBridge.Proofs.Bridge.LateAnswers
import DebugBridge.Proofs.Bridge.Messages

/-!
# Bridge/Resumption — responses are matched by their ids, never by their order

A call is parked once, when it is made (`Parks`), and waits under its id until a move frees what
waits there (`Frees`). Three kinds of moves do: a response to the id, a new run that names the id
as the paused step to go on from, and an injection that names it, with which the engine takes over
the call. So a call that returns with a response was freed by the first move after it was parked
that frees its id, and the response is the one of that move (`resumed_by_first_release`).

No move frees more than one call, and responses with different ids have the same effects whatever
their order (`log_run_responses`).
-/

namespace DebugBridge

/-- A call returns with a response exactly if it is resumed with it. -/
theorem Effect.mem_resumed?_iff {effects : List Effect} {call : CallId} {response : Envelope} :
    (call, .resumed response) ∈ effects.filterMap return? ↔
      (call, response) ∈ effects.filterMap resumed? := by
  rw [List.mem_filterMap, List.mem_filterMap]
  refine exists_congr fun effect => and_congr_right fun _ => ?_
  rcases effect with _ | ⟨other, _ | resumed | _ | _⟩ | _ | _ <;> simp [return?, resumed?]

namespace World

/-! ## Parking -/

/-- **Whether a move frees what waits under an id**: it amounts to a response to the id, or it has
the engine take over the call. -/
def Frees (w : World) (m : Move) (id : RequestId) : Prop :=
  (∃ response ∈ w.response? m, response.id = id) ∨ w.handover? m = some id

/-- **Whether a call is parked under an id**: it is made in the move, and waits under the id of its
own request to the debugger, or under the id of the run whose target it has reached. -/
structure Parks (w : World) (m : Move) (id : RequestId) (call : CallId) : Prop where
  made : call = w.bridge.calls
  holds : (w.step m).Holds (.entry id) call
  sent : ∃ s ∈ w.bridge.session, ∃ frame : Frame, .send s.id frame ∈ (w.respond m).2 ∧
    frame.envelope.id = id ∧
    (frame.envelope.type = .request ∧ m.made? = some id ∨
      frame.envelope.type = .response ∧ ∃ cursor ∈ s.state.runUntil, cursor.id = id)

theorem not_frees_of_none {w : World} {m : Move} (h : w.message? m = none) (id : RequestId) :
    ¬w.Frees m id := by
  rw [Frees, response?, handover?, h]
  rintro (⟨response, h, -⟩ | h) <;> cases h

section

variable {w : World} {s : Session} {input : Input} {id : RequestId} {call : CallId}

/-- A job that enters a call in the table and sends the frame that announces its id parks the
call. -/
theorem holds_of_entered (hs : w.bridge.session = some s) {job : Job}
    (hjob : w.bridge.job? s input = some job) {made : RequestId}
    (hpending : (w.bridge.turn s job).session.pending =
      ⟨s.pending.entries.insert made (.resume w.bridge.calls)⟩)
    (frame : Frame) (hsend : .send s.id frame ∈ (w.bridge.turn s job).effects)
    (hid : frame.envelope.id = made)
    (hreason : frame.envelope.type = .request ∧ (Move.input input).made? = some made ∨
      frame.envelope.type = .response ∧ ∃ cursor ∈ s.state.runUntil, cursor.id = made)
    (holds : (w.step (.input input)).Holds (.entry id) call)
    (hget : (w.bridge.turn s job).session.pending.get? id = some (.resume call)) :
    s.pending.get? id = some (.resume call) ∨ w.Parks (.input input) id call := by
  rw [hpending, Pending.get?_mk, KeyMap.get?_insert] at hget
  split at hget
  · next heq =>
    subst heq
    obtain rfl := Continuation.resume.inj (Option.some.inj hget)
    refine Or.inr ⟨rfl, holds, s, hs, frame, ?_, hid, hreason⟩
    show Effect.send s.id frame ∈ (w.bridge.step input).2
    rw [Bridge.step_of_job? hs hjob]
    exact w.bridge.effects_subset_carryOut s job hsend
  · exact Or.inl hget

/-- A call that waits after the debugger was asked. -/
theorem holds_of_ask (hs : w.bridge.session = some s) {made : RequestId} {trigger : String}
    {content : Content} (hjob : w.bridge.job? s input = some (.ask made trigger content))
    (holds : (w.step (.input input)).Holds (.entry id) call)
    (hget : (w.bridge.turn s (.ask made trigger content)).session.pending.get? id =
      some (.resume call)) :
    s.pending.get? id = some (.resume call) ∨ w.Parks (.input input) id call := by
  rcases s.forward_cases w.bridge.calls made trigger content with
    ⟨-, frame, hframe, h⟩ | ⟨fault, -, h⟩
  · refine holds_of_entered hs hjob (congrArg (·.session.pending) h) frame ?_ ?_ ?_ holds hget
    · rw [Bridge.turn, h]
      exact List.mem_singleton_self _
    · rw [hframe]
      rfl
    · exact Or.inl ⟨by rw [hframe]; rfl, Bridge.made?_of_ask hjob⟩
  · rw [Bridge.turn, h] at hget
    exact Or.inl hget

/-- A call that waits after a run was answered. -/
theorem holds_of_reach (hs : w.bridge.session = some s) {target : RequestId} {content : Content}
    (hjob : w.bridge.job? s input = some (.reach target content))
    (holds : (w.step (.input input)).Holds (.entry id) call)
    (hget : (w.bridge.turn s (.reach target content)).session.pending.get? id =
      some (.resume call)) :
    s.pending.get? id = some (.resume call) ∨ w.Parks (.input input) id call := by
  rcases s.reachTarget_cases w.bridge.calls target content with ⟨frame, hframe, h⟩ | ⟨fault, -, h⟩
  · refine holds_of_entered hs hjob (congrArg (·.session.pending) h) frame ?_ ?_ ?_ holds hget
    · rw [Bridge.turn, h]
      exact List.mem_cons_self
    · rw [hframe]
      rfl
    · cases Bridge.assigned hjob with
      | reaching _ hdecide =>
        obtain ⟨cursor, hcursor, hid⟩ := Bridge.target_of_decide hdecide
        exact Or.inr ⟨by rw [hframe]; rfl, cursor, hcursor, hid⟩
  · rw [Bridge.turn, h] at hget
    exact Or.inl hget

/-- **A call that waits** has waited before and was not freed, or is parked now. -/
theorem holds_of_step {m : Move} (holds : (w.step m).Holds (.entry id) call) :
    w.Holds (.entry id) call ∧ ¬w.Frees m id ∨ w.Parks m id call := by
  rcases m with input | _ | _ | _
  case input =>
    obtain ⟨t, ht, hget⟩ := holds
    rcases hs : w.bridge.session with _ | s
    · obtain ⟨-, -, rfl⟩ := Bridge.began_of_none hs ht
      cases hget
    -- Only a message can free what waits under an id, so other jobs are settled by what they park.
    have hstays (h : s.pending.get? id = some (.resume call))
        (hjob : ∀ e, w.bridge.job? s input ≠ some (.take e)) :
        w.Holds (.entry id) call ∧ ¬w.Frees (.input input) id :=
      ⟨⟨s, hs, h⟩, not_frees_of_none (m := .input input) (Bridge.message?_eq_none hs hjob) id⟩
    rcases Bridge.session_of_live hs ht with ⟨hjob, accepting, runtime, rfl⟩ | ⟨job, hjob, rfl⟩
    · exact Or.inl (hstays hget (by simp [hjob]))
    rcases job with ⟨made, trigger, content⟩ | ⟨target, content⟩ | e | ⟨replyTo, content⟩
    case ask =>
      rcases holds_of_ask hs hjob ⟨_, ht, hget⟩ hget with hbefore | hparks
      · exact Or.inl (hstays hbefore (by simp [hjob]))
      · exact Or.inr hparks
    case reach =>
      rcases holds_of_reach hs hjob ⟨_, ht, hget⟩ hget with hbefore | hparks
      · exact Or.inl (hstays hbefore (by simp [hjob]))
      · exact Or.inr hparks
    case take =>
      have hmessage := Bridge.message?_of_take hs hjob
      obtain ⟨hfault, -⟩ := Bridge.keep_of_message? hmessage ht
      obtain ⟨hbefore, hresponse, hhandover⟩ := Session.get?_of_receive hfault hget
      refine Or.inl ⟨⟨s, hs, hbefore⟩, ?_⟩
      rw [Frees, World.response?, World.handover?, message?, hmessage]
      rintro (⟨response, hmem, hid⟩ | hid)
      · exact hresponse response hmem hid
      · exact hhandover hid
    case answer =>
      have hreply := s.get?_reply replyTo content id
      rw [Bridge.turn] at hget
      rw [hget] at hreply
      split at hreply
      · cases hreply
      · exact Or.inl (hstays hreply.symm (by simp [hjob]))
  all_goals exact Or.inl ⟨holds, not_frees_of_none rfl id⟩

end

/-- **A call that waits has been parked**, and has waited since then without being freed. -/
theorem parked_of_holds (config : Config) {moves : List Move} {id : RequestId} {call : CallId}
    (holds : (run (.new config) moves).Holds (.entry id) call) :
    ∃ first park between, moves = first ++ park :: between ∧
      (run (.new config) first).Parks park id call ∧
      Along (fun v m => v.Holds (.entry id) call ∧ ¬v.Frees m id)
        ((run (.new config) first).step park) between := by
  induction moves using List.reverseRecOn with
  | nil =>
    obtain ⟨s, ⟨⟩, -⟩ := holds
  | append_singleton moves m ih =>
    rw [run_concat] at holds
    rcases holds_of_step holds with ⟨hbefore, hnot⟩ | hparks
    · obtain ⟨first, park, between, rfl, hparks, halong⟩ := ih hbefore
      rw [run_append, run_cons] at hbefore hnot
      exact ⟨first, park, between ++ [m], by simp, hparks,
        along_append.2 ⟨halong, ⟨hbefore, hnot⟩, trivial⟩⟩
    · exact ⟨moves, m, [], rfl, hparks, trivial⟩

/-! ## Resuming -/

/-- What the engine keeps it was handed in a move of the run. -/
theorem kept_subset_step {w : World} {m : Move} (_ : w.Allows m)
    (h : w.kept ⊆ w.log.filterMap Effect.injection?) :
    (w.step m).kept ⊆ (w.step m).log.filterMap Effect.injection? := by
  intro injection hmem
  rw [step, List.filterMap_append]
  rw [kept_step] at hmem
  rcases List.mem_append.1 hmem with hbefore | hnew
  · refine List.mem_append_left _ (h ?_)
    rcases hrelease : m.release? with _ | released
    · rw [hrelease] at hbefore
      exact hbefore
    · rw [hrelease] at hbefore
      exact List.mem_of_mem_erase hbefore
  · exact List.mem_append_right _ hnew

/-- **How a call is resumed in a move**: by the response that the move amounts to, if it waits under
the id of the response, or by the engine, which resumes an injection. -/
theorem resumed_of_respond {w : World} {m : Move} {call : CallId} {response : Envelope}
    (hmem : (call, .resumed response) ∈ (w.respond m).2.filterMap Effect.return?) :
    w.response? m = some response ∧ w.Holds (.entry response.id) call ∨
      ∃ injection, m = .resume injection ∧ injection.stepId = some response.id ∧
        injection.paused = some call ∧ response = .response response.id .object := by
  rcases m with input | injection | injection | cancelled
  case input =>
    have hresumed := Effect.mem_resumed?_iff.1 hmem
    rw [respond] at hresumed
    rcases hmessage : w.bridge.message? input with _ | ⟨s, e⟩
    · rw [Effect.filterMap_resumed?_of_freed? (Bridge.freed_step_of_none hmessage)] at hresumed
      cases hresumed
    · rw [Bridge.resumed_step hmessage] at hresumed
      split at hresumed
      · cases hresumed
      · obtain ⟨hresponse, hfound⟩ :=
          Session.resumes?_eq_some_iff.1 (Option.mem_toList.1 hresumed)
        refine Or.inl ⟨?_, s, (Bridge.message?_eq_some_iff.1 hmessage).1,
          Session.get?_of_found? hresponse hfound⟩
        rw [World.response?, message?, hmessage]
        exact hresponse
  case resume =>
    rw [respond, Effect.filterMap_return?_wakes] at hmem
    obtain ⟨wake, hwake, heq⟩ := List.mem_map.1 hmem
    rw [CodeInjection.resume, CodeInjection.settle] at hwake
    split at hwake
    · next id paused hstep hpaused =>
      obtain rfl := List.mem_singleton.1 hwake
      obtain ⟨rfl, hresponse⟩ := Prod.mk.inj heq
      obtain rfl := Outcome.resumed.inj hresponse
      exact Or.inr ⟨injection, rfl, hstep, hpaused, rfl⟩
    · cases hwake
  case letGo =>
    rw [respond, Effect.filterMap_return?_wakes] at hmem
    obtain ⟨wake, hwake, heq⟩ := List.mem_map.1 hmem
    rw [CodeInjection.drop, CodeInjection.settle] at hwake
    split at hwake
    · obtain rfl := List.mem_singleton.1 hwake
      cases (Prod.mk.inj heq).2
    · cases hwake
  case cancel => cases hmem

/-- **A move frees one call at most.** -/
theorem length_freed_respond_le (w : World) (m : Move) :
    ((w.respond m).2.filterMap Effect.freed?).length ≤ 1 := by
  have hwakes (wake? : Option Wake) :
      ((wake?.toList.map Wake.effect).filterMap Effect.freed?).length ≤ 1 := by
    refine Nat.le_trans (List.length_filterMap_le _ _) ?_
    rw [List.length_map]
    rcases wake? with _ | wake
    · exact Nat.zero_le 1
    · exact Nat.le_refl 1
  rcases m with input | injection | injection | call
  case input => exact w.bridge.length_freed_step_le input
  case resume | letGo => exact hwakes _
  case cancel => exact Nat.zero_le 1

/-- The engine is handed a call that waits under the id that the move names. -/
theorem handover?_of_inject {w : World} {m : Move} {injection : CodeInjection} {call : CallId}
    (hmem : injection ∈ (w.respond m).2.filterMap Effect.injection?)
    (hpaused : injection.paused = some call) :
    ∃ id, injection.stepId = some id ∧ w.handover? m = some id ∧ w.Holds (.entry id) call := by
  obtain ⟨effect, heffect, heq⟩ := List.mem_filterMap.1 hmem
  rcases effect with _ | _ | _ | other
  case inject =>
    obtain rfl := Option.some.inj heq
    rcases m with input | _ | _ | _
    case input =>
      obtain ⟨s, e, id, hmessage, hstep, hhandover, hget⟩ :=
        Bridge.handover?_of_inject heffect hpaused
      refine ⟨id, hstep, ?_, s, (Bridge.message?_eq_some_iff.1 hmessage).1, hget⟩
      rw [World.handover?, message?, hmessage]
      exact hhandover
    case resume | letGo =>
      obtain ⟨wake, -, heq⟩ := List.mem_map.1 heffect
      cases heq
    case cancel => cases heffect
  all_goals cases heq

/-- **Whether a move releases a call** for which it then returns with a response: the move amounts
to the response and the call returns at once, or the move names the id of the response in an
injection with which the engine takes over the call, and the engine resumes it later. -/
def Releases (w : World) (m : Move) (later : List Move) (call : CallId) (response : Envelope) :
    Prop :=
  w.response? m = some response ∧
      (call, .resumed response) ∈ (w.respond m).2.filterMap Effect.return? ∨
    ∃ injection ∈ (w.respond m).2.filterMap Effect.injection?,
      w.handover? m = some response.id ∧ injection.stepId = some response.id ∧
        injection.paused = some call ∧ .resume injection ∈ later ∧
        response = .response response.id .object

/-- **A call that returns with a response was released** while it waited under the id of the
response. -/
theorem released_of_resumed (config : Config) {moves : List Move}
    (legal : Legal (.new config) moves) {call : CallId} {response : Envelope}
    (hmem : (call, .resumed response) ∈ (run (.new config) moves).returned) :
    ∃ before release later, moves = before ++ release :: later ∧
      (run (.new config) before).Holds (.entry response.id) call ∧
      (run (.new config) before).Releases release later call response := by
  rcases mem_returned_run.1 hmem with hnone | ⟨before, m, later, rfl, hresumed⟩
  · cases hnone
  rcases resumed_of_respond hresumed with ⟨hresponse, hholds⟩ |
    ⟨injection, rfl, hstep, hpaused, heq⟩
  · exact ⟨before, m, later, rfl, hholds, Or.inl ⟨hresponse, hresumed⟩⟩
  · -- The engine keeps only what it was handed, so the injection was offered in an earlier move.
    obtain ⟨hbefore, hallowed, -⟩ := along_append.1 legal
    have hkept := hbefore.invariant kept_subset_step (List.nil_subset _)
      (hallowed.release injection rfl)
    rcases mem_log_run.1 hkept with hnone | ⟨first, handing, between, rfl, hinject⟩
    · cases hnone
    obtain ⟨id, hid, hhandover, hholds⟩ := handover?_of_inject hinject hpaused
    obtain rfl := Option.some.inj (hid.symm.trans hstep)
    exact ⟨first, handing, between ++ .resume injection :: later, by simp, hholds,
      Or.inr ⟨injection, hinject, hhandover, hstep, hpaused, by simp, heq⟩⟩

/-! ## Responses in any order -/

/-- Whether a move brings a response to the live session. -/
def Responds (w : World) (m : Move) : Prop :=
  ∃ s e, w.message? m = some (s, e) ∧ e.type = .response

/-- **A response resumes the call that waits under its id**, and does nothing else that can be
seen. -/
theorem respond_of_response {w : World} {m : Move} {s : Session} {e : Envelope}
    (h : w.message? m = some (s, e)) (htype : e.type = .response) :
    w.respond m = w.bridge.keep (s.release e) ∧
      (w.respond m).2 =
        ((s.pending.get? e.id).bind (·.call?)).toList.map fun call => .finish call (.resumed e) := by
  rcases m with input | _ | _ | _
  case input =>
    have hreceive : s.receive w.bridge.config.scopeMode w.bridge.hasEngine e = s.release e := by
      rw [Session.receive, htype]
    rcases Bridge.settled_of_message? h with ⟨-, hstep⟩ | ⟨hfault, -⟩
    · rw [hreceive] at hstep
      refine ⟨hstep, ?_⟩
      rw [respond, hstep]
      show (s.release e).effects = _
      rcases hget : s.pending.get? e.id with _ | call | _
      · rw [Session.release_of_none hget]
        rfl
      · rw [Session.release_of_some hget]
        rfl
      · rw [Session.release_of_some hget]
        rfl
    · rw [hreceive, Session.fault_release] at hfault
      cases hfault
  all_goals cases h

/-- **A response does not get in the way of one to another id.** -/
theorem respond_after_response {w : World} {m later : Move} (hm : w.Responds m)
    (hlater : w.Responds later)
    (apart : ∀ e ∈ w.response? m, ∀ other ∈ w.response? later, other.id ≠ e.id) :
    (w.step m).Responds later ∧ (w.step m).response? later = w.response? later ∧
      ((w.step m).respond later).2 = (w.respond later).2 := by
  obtain ⟨s, e, hmessage, htype⟩ := hm
  obtain ⟨t, other, hother, hothertype⟩ := hlater
  obtain rfl : t = s := Option.some.inj
    ((live_of_message? hother).symm.trans (live_of_message? hmessage))
  have hnext : (w.step m).bridge.session = some (t.release e).session := by
    rw [bridge_step, (respond_of_response hmessage htype).1]
    rfl
  have hafter := message?_of_same hother hnext (t.quiet_release e).id_eq
  have hne : other.id ≠ e.id := apart e (response?_of_message? hmessage htype) other
    (response?_of_message? hother hothertype)
  refine ⟨⟨_, other, hafter, hothertype⟩, ?_, ?_⟩
  · rw [response?_of_message? hafter hothertype, response?_of_message? hother hothertype]
  · rw [(respond_of_response hafter hothertype).2, (respond_of_response hother hothertype).2,
      Session.get?_release, if_neg hne]

/-- **Responses to different ids have the effects that each has alone.** -/
theorem log_run_responses {w : World} {answers : List Move} (responds : ∀ m ∈ answers, w.Responds m)
    (apart : ((answers.filterMap w.response?).map (·.id)).Nodup) :
    (w.run answers).log = w.log ++ answers.flatMap fun m => (w.respond m).2 := by
  induction answers generalizing w with
  | nil => simp
  | cons m rest ih =>
    obtain ⟨hm, hrest⟩ := List.forall_mem_cons.1 responds
    obtain ⟨s, e, hmessage, htype⟩ := hm
    rw [List.filterMap_cons_some (response?_of_message? hmessage htype), List.map_cons,
      List.nodup_cons] at apart
    have hnext : ∀ later ∈ rest, (w.step m).Responds later ∧
        (w.step m).response? later = w.response? later ∧
        ((w.step m).respond later).2 = (w.respond later).2 := by
      intro later hlater
      refine respond_after_response ⟨s, e, hmessage, htype⟩ (hrest later hlater) ?_
      intro first hfirst second hsecond heq
      obtain rfl := Option.some.inj ((response?_of_message? hmessage htype).symm.trans hfirst)
      exact apart.1 (heq ▸ List.mem_map_of_mem (List.mem_filterMap.2 ⟨later, hlater, hsecond⟩))
    have hresponses : rest.filterMap (w.step m).response? = rest.filterMap w.response? :=
      List.filterMap_congr fun later hlater => (hnext later hlater).2.1
    have heffects : (rest.flatMap fun later => ((w.step m).respond later).2) =
        rest.flatMap fun later => (w.respond later).2 :=
      List.flatMap_congr fun later hlater => (hnext later hlater).2.2
    rw [run_cons, ih (fun later hlater => (hnext later hlater).1) (hresponses ▸ apart.2), heffects,
      List.flatMap_cons, ← List.append_assoc]
    rfl

/-! ## By id, never by order -/

/-- **Responses are matched by their ids.** A call that has returned with a response was parked
under the id of the response when it was made, and has waited there until the first move that frees
what waits under the id; the response is the one of that move, or the empty one with which the
engine resumes the injection of that move. No move frees more than one call. A response resumes the
call that waits under its id, if there is one, and has no other effect; and responses to different
ids have the same effects in whatever order they come. -/
theorem resumed_by_first_release (config : Config) {moves : List Move}
    (legal : Legal (.new config) moves) :
    let w := run (.new config) moves
    (∀ call response, (call, .resumed response) ∈ w.returned →
      ∃ first park between release later,
        moves = first ++ park :: (between ++ release :: later) ∧
        let start := run (.new config) first
        start.Parks park response.id call ∧
        Along (fun v m => v.Holds (.entry response.id) call ∧ ¬v.Frees m response.id)
          (start.step park) between ∧
        let v := (start.step park).run between
        v.Holds (.entry response.id) call ∧ v.Frees release response.id ∧
          v.Releases release later call response) ∧
    (∀ m, ((w.respond m).2.filterMap Effect.freed?).length ≤ 1) ∧
    (∀ m s e, w.message? m = some (s, e) → e.type = .response →
      (w.respond m).2 =
        ((s.pending.get? e.id).bind (·.call?)).toList.map fun call => .finish call (.resumed e)) ∧
    (∀ answers others, (∀ m ∈ answers, w.Responds m) →
      ((answers.filterMap w.response?).map (·.id)).Nodup → answers.Perm others →
      (w.run answers).log = w.log ++ answers.flatMap (fun m => (w.respond m).2) ∧
        (w.run others).log.Perm (w.run answers).log) := by
  intro w
  refine ⟨fun call response hmem => ?_, fun m => ?_,
    fun m s e hmessage htype => (respond_of_response hmessage htype).2,
    fun answers others responds apart hperm => ?_⟩
  · obtain ⟨before, release, later, rfl, hholds, hreleases⟩ :=
      released_of_resumed config legal hmem
    obtain ⟨first, park, between, rfl, hparks, halong⟩ := parked_of_holds config hholds
    refine ⟨first, park, between, release, later, by simp, hparks, halong, ?_⟩
    rw [run_append, run_cons] at hholds hreleases
    refine ⟨hholds, ?_, hreleases⟩
    rcases hreleases with ⟨hresponse, -⟩ | ⟨injection, -, hhandover, -⟩
    · exact Or.inl ⟨response, hresponse, rfl⟩
    · exact Or.inr hhandover
  · exact w.length_freed_respond_le m
  · have hothers := log_run_responses (fun m hm => responds m (hperm.mem_iff.2 hm))
      (((hperm.filterMap _).map _).nodup_iff.1 apart)
    rw [hothers, log_run_responses responds apart]
    exact ⟨rfl, ((hperm.flatMap_right _).symm).append_left _⟩

/-- The debugger responds to the id under which the step at the target waits. -/
def respondToTarget : Move :=
  .input (.frame 1 "[\"x\",\"response\"]".toUTF8.toList)

theorem message?_respondToTarget {w : World} {s : Session} (hs : w.bridge.session = some s)
    (hid : s.id = 1) :
    ∃ e, w.message? respondToTarget = some (s, e) ∧ e.type = .response ∧ e.id = "x" := by
  have hdecode : ∃ message ∈ Input.message? (.frame 1 "[\"x\",\"response\"]".toUTF8.toList),
      message.1 = 1 ∧ message.2.type = .response ∧ message.2.id = "x" := by decide +kernel
  obtain ⟨⟨_, e⟩, hmessage, rfl, htype, hx⟩ := hdecode
  exact ⟨e, Bridge.message?_eq_some_iff.2 ⟨hs, hid ▸ hmessage⟩, htype, hx⟩

theorem resumed_by_first_release_respondToTarget :
    let moves := reusedId ++ [reachTarget] ++ [respondToTarget]
    Legal (.new .default) moves ∧
    ∃ response : Envelope, response.id = "x" ∧
      (0, .resumed response) ∈ (run (.new .default) moves).returned ∧
      ∃ first park between release later,
        moves = first ++ park :: (between ++ release :: later) ∧
        (run (.new .default) first).Parks park "x" 0 ∧
        (run (.new .default) (first ++ park :: between)).Releases release later 0 response := by
  intro moves
  have legal : Legal (.new .default) moves :=
    along_append.2 ⟨legal_parkedOverRead, allows_of_free rfl rfl rfl, trivial⟩
  obtain ⟨s, hlive, -, hget⟩ := parkedOverRead.session
  obtain ⟨hs, hid⟩ := Bridge.session?_eq_some_iff.1 hlive
  obtain ⟨e, hmessage, htype, hx⟩ := message?_respondToTarget hs hid
  have hmem : (0, .resumed e) ∈ (run (.new .default) moves).returned := by
    rw [show run (.new .default) moves = _ from run_concat _ _ _, returned_step,
      (respond_of_response hmessage htype).2, hx, hget]
    exact List.mem_append_right _ (List.mem_singleton_self _)
  obtain ⟨first, park, between, release, later, heq, hparks, -, -, -, hreleases⟩ :=
    (resumed_by_first_release .default legal).1 0 e hmem
  refine ⟨legal, e, hx, hmem, first, park, between, release, later, heq, hx ▸ hparks, ?_⟩
  rw [run_append, run_cons]
  exact hreleases

end World

end DebugBridge

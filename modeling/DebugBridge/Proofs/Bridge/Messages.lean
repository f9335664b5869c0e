import DebugBridge.Proofs.Bridge.Ending
import DebugBridge.Proofs.Session.Freeing
import DebugBridge.Proofs.Session.Sending

/-!
# Bridge/Messages — the messages that reach the live session

A frame counts if it holds a message and comes over the link of the live session (`message?`). What
the message asks for is then known from the session, and so is what the step of the bridge comes to
(`settled_of_message?`). Inputs that bring no message free no call (`freed_step_of_none`). Whatever
is sent goes to the live session (`session_of_sent`).
-/

namespace DebugBridge

/-- The message that an input brings, with the session over whose link it comes. -/
def Input.message? : Input → Option (SessionId × Envelope)
  | .frame id bytes => (Envelope.decode bytes).toOption.map (Prod.mk id)
  | _ => none

namespace Bridge

/-- The message that an input brings to the live session. -/
def message? (b : Bridge) (input : Input) : Option (Session × Envelope) :=
  input.message?.bind fun (id, e) => (b.session? id).map (·, e)

section

variable {b : Bridge} {s : Session} {e : Envelope} {input : Input}

theorem message?_eq_some_iff :
    b.message? input = some (s, e) ↔ b.session = some s ∧ input.message? = some (s.id, e) := by
  rw [message?]
  rcases input.message? with _ | ⟨id, other⟩
  · simp
  · rw [Option.bind_some, Option.map_eq_some_iff]
    constructor
    · rintro ⟨t, hlive, heq⟩
      obtain ⟨rfl, rfl⟩ := Prod.mk.inj heq
      obtain ⟨hs, rfl⟩ := session?_eq_some_iff.1 hlive
      exact ⟨hs, rfl⟩
    · rintro ⟨hs, heq⟩
      obtain ⟨rfl, rfl⟩ := Prod.mk.inj (Option.some.inj heq)
      exact ⟨s, session?_eq_some_iff.2 ⟨hs, rfl⟩, rfl⟩

theorem job?_of_message? (h : b.message? input = some (s, e)) :
    b.job? s input = some (.take e) := by
  obtain ⟨-, h⟩ := message?_eq_some_iff.1 h
  rcases input with _ | _ | _ | _ | _ | _ | _ | ⟨id, bytes⟩ | _ | _ | _ | _ | _
  case frame =>
    rw [Input.message?] at h
    rw [job?]
    rcases hdecode : Envelope.decode bytes with fault | other
    · rw [hdecode] at h
      cases h
    · rw [hdecode] at h
      obtain ⟨rfl, rfl⟩ := Prod.mk.inj (Option.some.inj h)
      exact if_pos rfl
  all_goals cases h

/-- Only a message is taken. -/
theorem message?_of_take (hs : b.session = some s) (h : b.job? s input = some (.take e)) :
    b.message? input = some (s, e) := by
  cases assigned h with
  | taking hdecode =>
    refine message?_eq_some_iff.2 ⟨hs, ?_⟩
    rw [Input.message?, hdecode]
    rfl

theorem message?_eq_none (hs : b.session = some s) (h : ∀ e, b.job? s input ≠ some (.take e)) :
    b.message? input = none := by
  rcases hmessage : b.message? input with _ | ⟨other, e⟩
  · rfl
  · obtain rfl := Option.some.inj (hs.symm.trans (message?_eq_some_iff.1 hmessage).1)
    exact absurd (job?_of_message? hmessage) (h e)

/-- **A message** is taken by the live session, with which the bridge goes on unless the link takes
no frames. -/
theorem settled_of_message? (h : b.message? input = some (s, e)) :
    let turn := s.receive b.config.scopeMode b.hasEngine e
    turn.fault = none ∧ b.step input = b.keep turn ∨
      turn.fault = some (.transport .sendFailed) ∧ b.step input = b.abort turn := by
  intro turn
  have hstep : b.step input = b.settle turn :=
    step_of_job? (message?_eq_some_iff.1 h).1 (job?_of_message? h)
  rw [hstep, settle]
  rcases s.sound_receive b.config.scopeMode b.hasEngine e with hnone | hfailed
  · exact Or.inl ⟨hnone, by rw [hnone]; rfl⟩
  · exact Or.inr ⟨hfailed, by rw [hfailed]; rfl⟩

theorem keep_of_message? (h : b.message? input = some (s, e)) {t : Session}
    (live : (b.step input).1.session = some t) :
    (s.receive b.config.scopeMode b.hasEngine e).fault = none ∧
      b.step input = b.keep (s.receive b.config.scopeMode b.hasEngine e) := by
  rcases settled_of_message? h with hkeep | ⟨-, habort⟩
  · exact hkeep
  · rw [habort] at live
    cases live

/-- **The state of a session that goes on** is as a message leaves it. Without a message the mode of
stepping stays, and so does the run, unless a step gets to its target. -/
theorem state_of_live (hs : b.session = some s) {t : Session}
    (ht : (b.step input).1.session = some t) :
    (∃ e, b.message? input = some (s, e) ∧
      (s.receive b.config.scopeMode b.hasEngine e).fault = none ∧
      t = (s.receive b.config.scopeMode b.hasEngine e).session) ∨
    b.message? input = none ∧ t.state.fastStep = s.state.fastStep ∧
      (t.state.runUntil = s.state.runUntil ∨
        ∃ target content, b.job? s input = some (.reach target content)) := by
  rcases session_of_live hs ht with ⟨hjob, accepting, runtime, rfl⟩ | ⟨job, hjob, rfl⟩
  · exact Or.inr ⟨message?_eq_none hs (by simp [hjob]), rfl, Or.inl rfl⟩
  rcases job with ⟨made, trigger, content⟩ | ⟨target, content⟩ | e | ⟨replyTo, content⟩
  case ask =>
    rw [turn, Session.state_forward]
    exact Or.inr ⟨message?_eq_none hs (by simp [hjob]), rfl, Or.inl rfl⟩
  case reach =>
    rw [turn, Session.fastStep_reachTarget]
    exact Or.inr ⟨message?_eq_none hs (by simp [hjob]), rfl, Or.inr ⟨target, content, hjob⟩⟩
  case take =>
    have hmessage := message?_of_take hs hjob
    exact Or.inl ⟨e, hmessage, (keep_of_message? hmessage ht).1, rfl⟩
  case answer =>
    rw [turn, Session.state_reply]
    exact Or.inr ⟨message?_eq_none hs (by simp [hjob]), rfl, Or.inl rfl⟩

/-! ## What is freed -/

/-- **Only messages free calls.** -/
theorem freed_step_of_none (h : b.message? input = none) :
    (b.step input).2.filterMap Effect.freed? = [] := by
  have hfails (call : CallId) (error : BridgeError) :
      Effect.freed? (.finish call (.failed error)) = none := rfl
  have hstepped := b.stepped input
  generalize b.step input = result at hstepped ⊢
  cases hstepped with
  | unmoved | equipped | suppressing | finalized | began | deafened | unattended | skipped => rfl
  | dropped | closed => exact filterMap_close hfails _
  | asked =>
    rw [filterMap_settle hfails, filterMap_returning hfails]
    exact Session.freed_forward _ _ _ _ _
  | reached =>
    rw [filterMap_ite hfails, filterMap_returning hfails]
    exact Session.freed_reachTarget _ _ _ _
  | received hs hdecode =>
    rw [message?_eq_some_iff.2 ⟨hs, by rw [Input.message?, hdecode]; rfl⟩] at h
    cases h
  | answered =>
    rw [answer]
    split
    · rfl
    · dsimp only
      rw [filterMap_ite hfails]
      exact Session.freed_reply _ _ _

/-- **An input frees one call at most.** -/
theorem length_freed_step_le (b : Bridge) (input : Input) :
    ((b.step input).2.filterMap Effect.freed?).length ≤ 1 := by
  rcases h : b.message? input with _ | ⟨s, e⟩
  · rw [freed_step_of_none h]
    exact Nat.zero_le 1
  · rcases settled_of_message? h with ⟨-, hstep⟩ | ⟨-, hstep⟩
    · rw [hstep]
      exact s.length_freed_receive_le _ _ _
    · rw [hstep, filterMap_abort fun _ _ => rfl]
      exact s.length_freed_receive_le _ _ _

/-- **What a message resumes**, if the session goes on. -/
theorem resumed_step (h : b.message? input = some (s, e)) :
    (b.step input).2.filterMap Effect.resumed? =
      if (b.step input).1.session = none then [] else (s.resumes? e).toList := by
  have hresumed := s.resumed_receive b.config.scopeMode b.hasEngine e
  rcases settled_of_message? h with ⟨hfault, hstep⟩ | ⟨hfault, hstep⟩
  · rw [if_pos hfault] at hresumed
    rw [hstep]
    exact hresumed
  · rw [if_neg (by simp [hfault])] at hresumed
    rw [hstep, filterMap_abort fun _ _ => rfl, hresumed]
    rfl

/-- **What the engine is handed** waits under the id that a message names. -/
theorem handover?_of_inject {injection : CodeInjection}
    (hmem : .inject injection ∈ (b.step input).2) {call : CallId}
    (hpaused : injection.paused = some call) :
    ∃ s e id, b.message? input = some (s, e) ∧ injection.stepId = some id ∧
      s.handover? b.hasEngine e = some id ∧ s.pending.get? id = some (.resume call) := by
  rcases h : b.message? input with _ | ⟨s, e⟩
  · have hfreed : call ∈ (b.step input).2.filterMap Effect.freed? :=
      List.mem_filterMap.2 ⟨_, hmem, hpaused⟩
    rw [freed_step_of_none h] at hfreed
    cases hfreed
  · have hturn : .inject injection ∈
        (s.receive b.config.scopeMode b.hasEngine e).effects := by
      rcases settled_of_message? h with ⟨-, hstep⟩ | ⟨-, hstep⟩
      · rw [hstep] at hmem
        exact hmem
      · rw [hstep] at hmem
        rcases List.mem_append.1 hmem with hmem | hmem
        · exact hmem
        · obtain ⟨wake, -, heq⟩ := List.mem_map.1 hmem
          cases heq
    obtain ⟨id, hstep, hhandover, hget⟩ := Session.handover?_of_handed hturn hpaused
    exact ⟨s, e, id, rfl, hstep, hhandover, hget⟩

end

/-! ## What is sent -/

/-- **Messages go to the live session**, and requests only when the engine asks. -/
theorem session_of_sent {b : Bridge} {input : Input} {message : SessionId × Envelope}
    (hmem : message ∈ (b.step input).2.filterMap Effect.sent?) :
    ∃ s, b.session = some s ∧ message.1 = s.id ∧ (message.2.type = .request →
      ∃ id content, b.job? s input = some (.ask id message.2.trigger content)) := by
  have hfails (call : CallId) (error : BridgeError) :
      Effect.sent? (.finish call (.failed error)) = none := rfl
  have hstepped := b.stepped input
  generalize b.step input = result at hstepped hmem
  cases hstepped with
  | unmoved | equipped | suppressing | finalized | began | deafened | unattended | skipped =>
    cases hmem
  | dropped | closed =>
    have hclose := filterMap_close hfails _ ▸ hmem
    cases hclose
  | asked hs hasks =>
    rw [filterMap_settle hfails, filterMap_returning hfails] at hmem
    rw [(Session.sends_forward _ _ _ _ _).eq_of_mem hmem]
    exact ⟨_, hs, rfl, fun _ => ⟨_, _, job?_of_asks? hasks⟩⟩
  | reached _ hs =>
    rw [filterMap_ite hfails, filterMap_returning hfails] at hmem
    rw [(Session.sends_reachTarget _ _ _ _).eq_of_mem hmem]
    exact ⟨_, hs, rfl, fun htype => by cases htype⟩
  | received hs =>
    rw [filterMap_settle hfails] at hmem
    obtain ⟨hid, hresponse⟩ := Session.response_of_sent_receive hmem
    exact ⟨_, hs, hid, fun htype => by cases hresponse.symm.trans htype⟩
  | answered =>
    rw [answer] at hmem
    split at hmem
    · cases hmem
    · next hlive =>
      obtain ⟨hs, -⟩ := session?_eq_some_iff.1 hlive
      dsimp only at hmem
      rw [filterMap_ite hfails] at hmem
      rw [(Session.sends_reply _ _ _).eq_of_mem hmem]
      exact ⟨_, hs, rfl, fun htype => by cases htype⟩

end Bridge

namespace World

/-! ## Moves -/

/-- The message that a move brings to the live session. -/
def message? (w : World) : Move → Option (Session × Envelope)
  | .input input => w.bridge.message? input
  | _ => none

/-- The response that a move amounts to. -/
def response? (w : World) (m : Move) : Option Envelope :=
  (w.message? m).bind fun (s, e) => s.response? e

/-- The id under which a call waits that a move has the engine take over. -/
def handover? (w : World) (m : Move) : Option RequestId :=
  (w.message? m).bind fun (s, e) => s.handover? w.bridge.hasEngine e

/-- The run that a move begins. -/
def begins? (w : World) (m : Move) : Option RunUntil :=
  (w.message? m).bind fun (s, e) => s.begins? e

theorem live_of_message? {w : World} {m : Move} {s : Session} {e : Envelope}
    (h : w.message? m = some (s, e)) : w.bridge.session = some s := by
  rcases m with input | _ | _ | _
  case input => exact (Bridge.message?_eq_some_iff.1 h).1
  all_goals cases h

/-- What reaches a session reaches it as well in another state. -/
theorem message?_of_same {w v : World} {m : Move} {s t : Session} {e : Envelope}
    (h : w.message? m = some (s, e)) (ht : v.bridge.session = some t) (hid : t.id = s.id) :
    v.message? m = some (t, e) := by
  rcases m with input | _ | _ | _
  case input =>
    exact Bridge.message?_eq_some_iff.2 ⟨ht, hid ▸ (Bridge.message?_eq_some_iff.1 h).2⟩
  all_goals cases h

/-- A move that brings a response amounts to it. -/
theorem response?_of_message? {w : World} {m : Move} {s : Session} {e : Envelope}
    (h : w.message? m = some (s, e)) (htype : e.type = .response) : w.response? m = some e := by
  rw [World.response?, h]
  exact Session.response?_of_response htype

end World

end DebugBridge

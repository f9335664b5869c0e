import DebugBridge.Proofs.Session.Messages

/-!
# Session/Freeing — what a message frees, and what it sets

A call that waits in the table is freed by a response that resumes it, or by an injection with which
the engine takes it over; nothing else in a session frees a call (`freed_reply` and its like). A
message frees one call at most: the one it resumes waits for the response that the message amounts
to (`resumed_receive`), and the one it hands over waits under the id that it names
(`handover?_of_handed`). So a call that waits after a message was not freed by it
(`get?_of_receive`).

The run under way and the mode of stepping change with the same messages. A new run takes the place
of the one under way (`runUntil_receive`), and the mode is set by a message that finds something
pending (`fastStep_receive`).
-/

namespace DebugBridge

/-! ## Reading effects -/

namespace Effect

/-- The call that is resumed, with the response. -/
def resumed? : Effect → Option (CallId × Envelope)
  | .finish call (.resumed response) => some (call, response)
  | _ => none

/-- The call that an effect frees: it is resumed, or the engine is handed it. -/
def freed? : Effect → Option CallId
  | .finish call (.resumed _) => some call
  | .inject injection => injection.paused
  | _ => none

/-- What frees nothing resumes nothing. -/
theorem filterMap_resumed?_of_freed? {effects : List Effect}
    (h : effects.filterMap freed? = []) : effects.filterMap resumed? = [] := by
  refine List.filterMap_eq_nil_iff.2 fun effect heffect => ?_
  have hnone := List.filterMap_eq_nil_iff.1 h effect heffect
  rcases effect with _ | ⟨call, _ | response | _ | _⟩ | _ | _
  case finish.resumed => cases hnone
  all_goals rfl

end Effect

namespace Session

/-! ## Operations -/

theorem freed_send (s : Session) (e : Envelope) :
    (s.send e).effects.filterMap Effect.freed? = [] := by
  rcases s.send_cases e with ⟨frame, -, h⟩ | ⟨fault, -, h⟩ <;> rw [h] <;> rfl

theorem freed_released (held : Continuation) :
    ((held.settle .released).map Wake.effect).filterMap Effect.freed? = [] := by
  rcases held <;> rfl

/-- Answering frees nothing. -/
theorem freed_reply (s : Session) (id : RequestId) (content : Content) :
    (s.reply id content).effects.filterMap Effect.freed? = [] := by
  rcases h : s.pending.get? id with _ | held
  · rw [reply_of_none h]
    exact s.freed_send _
  · rw [reply_of_some h, List.filterMap_append, freed_released, freed_send]
    rfl

theorem freed_forward (s : Session) (call : CallId) (id : RequestId) (trigger : String)
    (content : Content) :
    (s.forward call id trigger content).effects.filterMap Effect.freed? = [] := by
  rcases s.forward_cases call id trigger content with ⟨-, frame, -, h⟩ | ⟨fault, -, h⟩ <;>
    rw [h] <;> rfl

theorem freed_reachTarget (s : Session) (call : CallId) (id : RequestId) (content : Content) :
    (s.reachTarget call id content).effects.filterMap Effect.freed? = [] := by
  rcases s.reachTarget_cases call id content with ⟨frame, -, h⟩ | ⟨fault, -, h⟩
  · rw [h]
    refine (List.filterMap_cons_none (rfl : Effect.freed? (.send s.id frame) = none)).trans ?_
    rcases s.pending.get? id with _ | held
    · rfl
    · rw [Option.toList_some, List.flatMap_singleton]
      exact freed_released held
  · rw [h]
    rfl

theorem freed_supersede (s : Session) (run : RunUntil) :
    (s.supersede run).effects.filterMap Effect.freed? = [] := by
  rw [supersede]
  rcases s.state.runUntil with _ | previous
  · rfl
  · exact freed_reply _ _ _

theorem resumed_release (s : Session) (response : Envelope) :
    (s.release response).effects.filterMap Effect.resumed? =
      (((s.pending.get? response.id).bind (·.call?)).map (·, response)).toList := by
  rcases h : s.pending.get? response.id with _ | call | _
  · rw [release_of_none h]
    rfl
  · rw [release_of_some h]
    rfl
  · rw [release_of_some h]
    rfl

theorem length_release_le (s : Session) (response : Envelope) :
    (s.release response).effects.length ≤ 1 := by
  rcases h : s.pending.get? response.id with _ | call | _
  · rw [release_of_none h]
    exact Nat.zero_le 1
  · rw [release_of_some h]
    exact Nat.le_refl 1
  · rw [release_of_some h]
    exact Nat.zero_le 1

/-! ## Messages -/

section

variable {s : Session} {e : Envelope}

/-- What comes before a response frees nothing. -/
theorem freed_before (s : Session) (e : Envelope) :
    (s.before e).effects.filterMap Effect.freed? = [] := by
  rw [before]
  rcases s.begins? e with _ | run
  · rfl
  · exact freed_supersede _ _

theorem handed_before (s : Session) (e : Envelope) :
    (s.before e).effects.filterMap Effect.handed? = [] := by
  rw [before]
  rcases s.begins? e with _ | run
  · rfl
  · dsimp only
    rw [supersede]
    rcases (s.awaiting e.id).state.runUntil with _ | previous
    · rfl
    · exact filterMap_handed?_reply _ _ _

/-- **A message frees one call at most.** -/
theorem length_freed_receive_le (s : Session) (mode : ScopeMode) (hasEngine : Bool) (e : Envelope) :
    ((s.receive mode hasEngine e).effects.filterMap Effect.freed?).length ≤ 1 := by
  rcases hresponse : s.response? e with _ | response
  · have h := s.received mode hasEngine e
    generalize s.receive mode hasEngine e = turn at h ⊢
    rcases h with htype | ⟨stepId, pc, haccepted⟩ | ⟨stepId, -, -⟩ | ⟨-, -⟩ | ⟨address, slot⟩
    · rw [response?_of_response htype] at hresponse
      cases hresponse
    · rw [response?_of_running haccepted] at hresponse
      cases hresponse
    · rcases (s.awaiting e.id).inject_cases e.id stepId e.content with
        ⟨k, call, -, -, h⟩ | ⟨-, h⟩ <;> rw [h]
      · exact Nat.le_refl 1
      · exact Nat.zero_le 1
    · rw [freed_send]
      exact Nat.zero_le 1
    · exact Nat.zero_le 1
  · rw [receive_of_response? hresponse]
    rcases hfault : (s.before e).fault with _ | fault
    · rw [Turn.andThen_of_none hfault, List.filterMap_append, freed_before, List.nil_append]
      exact Nat.le_trans (List.length_filterMap_le _ _) (length_release_le _ _)
    · rw [Turn.andThen_of_some hfault, freed_before]
      exact Nat.zero_le 1

/-- The call that a message resumes, with the response. -/
def resumes? (s : Session) (e : Envelope) : Option (CallId × Envelope) :=
  (s.response? e).bind fun response => ((s.found? e).bind (·.call?)).map (·, response)

theorem resumes?_eq_some_iff {call : CallId} {response : Envelope} :
    s.resumes? e = some (call, response) ↔
      s.response? e = some response ∧ s.found? e = some (.resume call) := by
  rw [resumes?]
  rcases s.response? e with _ | other
  · simp
  · rcases s.found? e with _ | waiting | _
    · simp [Continuation.call?]
    · simp [Continuation.call?, and_comm]
    · simp [Continuation.call?]

/-- A message that amounts to no response resumes nothing. -/
theorem resumed_receive_of_none (hresponse : s.response? e = none) (mode : ScopeMode)
    (hasEngine : Bool) :
    (s.receive mode hasEngine e).effects.filterMap Effect.resumed? = [] := by
  have h := s.received mode hasEngine e
  generalize s.receive mode hasEngine e = turn at h ⊢
  rcases h with htype | ⟨stepId, pc, haccepted⟩ | ⟨stepId, -, -⟩ | ⟨-, -⟩ | ⟨address, slot⟩
  · rw [response?_of_response htype] at hresponse
    cases hresponse
  · rw [response?_of_running haccepted] at hresponse
    cases hresponse
  · rcases (s.awaiting e.id).inject_cases e.id stepId e.content with ⟨k, call, -, -, h⟩ | ⟨-, h⟩ <;>
      rw [h] <;> rfl
  · exact Effect.filterMap_resumed?_of_freed? (freed_send _ _)
  · rfl

/-- **What a message resumes**: the call that waits for the response that it amounts to, unless the
link takes no frames. -/
theorem resumed_receive (s : Session) (mode : ScopeMode) (hasEngine : Bool) (e : Envelope) :
    (s.receive mode hasEngine e).effects.filterMap Effect.resumed? =
      if (s.receive mode hasEngine e).fault = none then (s.resumes? e).toList else [] := by
  rcases hresponse : s.response? e with _ | response
  · rw [resumed_receive_of_none hresponse, resumes?, hresponse]
    exact (ite_self _).symm
  · have hnone := Effect.filterMap_resumed?_of_freed? (s.freed_before e)
    rw [receive_of_response? hresponse]
    rcases hfault : (s.before e).fault with _ | fault
    · rw [Turn.andThen_of_none hfault, if_pos (fault_release _ _), List.filterMap_append, hnone,
        resumed_release, resumes?, found?, hresponse]
      rfl
    · rw [Turn.andThen_of_some hfault, if_neg (by simp [hfault]), hnone]

/-- A message that amounts to a response hands nothing to the engine. -/
theorem handed_receive_of_some {response : Envelope} (hresponse : s.response? e = some response)
    (mode : ScopeMode) (hasEngine : Bool) :
    (s.receive mode hasEngine e).effects.filterMap Effect.handed? = [] := by
  rw [receive_of_response? hresponse]
  rcases hfault : (s.before e).fault with _ | fault
  · rw [Turn.andThen_of_none hfault, List.filterMap_append, handed_before, List.nil_append,
      (tracks_release _ _).hands, List.filterMap_eq_nil_iff]
    intro d hd
    rw [Departure.handed?, (mem_departure.1 hd).2.2]
    rfl
  · rw [Turn.andThen_of_some hfault, handed_before]

/-- **What the engine is handed**: the call that waits under the id that the message names. -/
theorem handover?_of_handed {mode : ScopeMode} {hasEngine : Bool} {injection : CodeInjection}
    (hmem : .inject injection ∈ (s.receive mode hasEngine e).effects) {call : CallId}
    (hpaused : injection.paused = some call) :
    ∃ id, injection.stepId = some id ∧ s.handover? hasEngine e = some id ∧
      s.pending.get? id = some (.resume call) := by
  have hhanded : call ∈ (s.receive mode hasEngine e).effects.filterMap Effect.handed? :=
    List.mem_filterMap.2 ⟨_, hmem, hpaused⟩
  have hresponse : s.response? e = none := by
    rcases hsome : s.response? e with _ | response
    · rfl
    · rw [handed_receive_of_some hsome] at hhanded
      cases hhanded
  have h := s.received mode hasEngine e
  generalize s.receive mode hasEngine e = turn at h hmem hhanded
  rcases h with htype | ⟨stepId, pc, haccepted⟩ | ⟨stepId, haccepted, rfl⟩ | ⟨-, -⟩ |
    ⟨address, slot⟩
  · rw [response?_of_response htype] at hresponse
    cases hresponse
  · rw [response?_of_running haccepted] at hresponse
    cases hresponse
  · have hhandover := handover?_of_injecting haccepted
    rcases (s.awaiting e.id).inject_cases e.id stepId e.content with
      ⟨k, waiting, rfl, hget, h⟩ | ⟨-, h⟩
    · rw [h, List.mem_singleton] at hmem
      obtain rfl := Effect.inject.inj hmem
      obtain rfl := Option.some.inj hpaused
      exact ⟨k, rfl, hhandover, resume_of_awaiting hget⟩
    · rw [h, List.mem_singleton] at hmem
      obtain rfl := Effect.inject.inj hmem
      cases hpaused
  · rw [(tracks_send _ _).hands] at hhanded
    cases hhanded
  · cases hhanded

/-- **A call that waits after a message** has waited before, and the message does not free what
waits under its id. -/
theorem get?_of_receive {mode : ScopeMode} {hasEngine : Bool}
    (hfault : (s.receive mode hasEngine e).fault = none) {id : RequestId} {call : CallId}
    (hget : (s.receive mode hasEngine e).session.pending.get? id = some (.resume call)) :
    s.pending.get? id = some (.resume call) ∧ (∀ response ∈ s.response? e, response.id ≠ id) ∧
      s.handover? hasEngine e ≠ some id := by
  rcases hresponse : s.response? e with _ | response
  · suffices h : s.pending.get? id = some (.resume call) ∧ s.handover? hasEngine e ≠ some id from
      ⟨h.1, by simp, h.2⟩
    have h := s.received mode hasEngine e
    generalize s.receive mode hasEngine e = turn at h hget
    rcases h with htype | ⟨stepId, pc, haccepted⟩ | ⟨stepId, haccepted, rfl⟩ | ⟨hsetUp, hplain⟩ |
      ⟨address, slot, -, hplain⟩
    · rw [response?_of_response htype] at hresponse
      cases hresponse
    · rw [response?_of_running haccepted] at hresponse
      cases hresponse
    · rw [handover?_of_injecting haccepted]
      rcases (s.awaiting e.id).inject_cases e.id stepId e.content with
        ⟨k, waiting, rfl, -, h⟩ | ⟨hnone, h⟩
      · rw [h] at hget
        have herase : ((s.awaiting e.id).without k).pending.get? id =
            if id = k then none else (s.awaiting e.id).pending.get? id := KeyMap.get?_erase _ _ id
        rw [hget] at herase
        split at herase
        · cases herase
        · next hne => exact ⟨resume_of_awaiting herase.symm, by simpa using Ne.symm hne⟩
      · rw [h] at hget
        exact ⟨resume_of_awaiting hget, fun heq => hnone id heq call hget⟩
    · obtain ⟨breakpoints, jumpDestinations, declarations, rfl⟩ := hsetUp
      rw [session_send] at hget
      exact ⟨hget, by simp [hplain.handover]⟩
    · exact ⟨resume_of_awaiting hget, by simp [hplain.handover]⟩
  · rw [receive_of_response? hresponse] at hfault hget
    rw [Turn.andThen_of_none (Turn.fault_of_andThen hfault)] at hget
    have hrelease := (s.before e).session.get?_release response id
    rw [hget] at hrelease
    split at hrelease
    · cases hrelease
    · next hne =>
      exact ⟨resume_of_before hrelease.symm, by simpa using Ne.symm hne,
        by simp [handover?_of_response? hresponse]⟩

/-! ## The state -/

theorem state_release (s : Session) (response : Envelope) :
    let asked? := (s.pending.get? response.id).bind fun _ => response.content.fastStep?
    (s.release response).session.state =
      { s.state with fastStep := asked?.getD s.state.fastStep } := by
  rcases h : s.pending.get? response.id with _ | held
  · rw [release_of_none h]
    rfl
  · rw [release_of_some h]
    rfl

theorem state_forward (s : Session) (call : CallId) (id : RequestId) (trigger : String)
    (content : Content) : (s.forward call id trigger content).session.state = s.state := by
  rcases s.forward_cases call id trigger content with ⟨-, frame, -, h⟩ | ⟨fault, -, h⟩ <;> rw [h]

theorem fastStep_reachTarget (s : Session) (call : CallId) (id : RequestId) (content : Content) :
    (s.reachTarget call id content).session.state.fastStep = s.state.fastStep := by
  rcases s.reachTarget_cases call id content with ⟨frame, -, h⟩ | ⟨fault, -, h⟩ <;> rw [h]

theorem state_inject (s : Session) (id : RequestId) (stepId : Option RequestId)
    (content : Content) : (s.inject id stepId content).session.state = s.state := by
  rcases s.inject_cases id stepId content with ⟨k, call, -, -, h⟩ | ⟨-, h⟩ <;>
    rw [h]
  rfl

/-- **A message that amounts to no response** leaves the run and the mode of stepping as they
are. -/
theorem state_receive_of_none (hresponse : s.response? e = none) (mode : ScopeMode)
    (hasEngine : Bool) :
    (s.receive mode hasEngine e).session.state.runUntil = s.state.runUntil ∧
      (s.receive mode hasEngine e).session.state.fastStep = s.state.fastStep := by
  have h := s.received mode hasEngine e
  generalize s.receive mode hasEngine e = turn at h ⊢
  rcases h with htype | ⟨stepId, pc, haccepted⟩ | ⟨stepId, -, -⟩ | ⟨hsetUp, -⟩ | ⟨address, slot⟩
  · rw [response?_of_response htype] at hresponse
    cases hresponse
  · rw [response?_of_running haccepted] at hresponse
    cases hresponse
  · rw [state_inject]
    exact ⟨rfl, rfl⟩
  · obtain ⟨breakpoints, jumpDestinations, declarations, rfl⟩ := hsetUp
    rw [session_send]
    exact ⟨rfl, rfl⟩
  · exact ⟨rfl, rfl⟩

theorem state_before (s : Session) (e : Envelope) :
    (s.before e).session.state =
      { s.state with runUntil := (s.begins? e).or s.state.runUntil } := by
  rw [before]
  rcases s.begins? e with _ | run
  · rfl
  · exact state_supersede _ _

/-- **A message leaves the run under way**, unless it begins one. -/
theorem runUntil_receive (s : Session) (mode : ScopeMode) (hasEngine : Bool) (e : Envelope) :
    (s.receive mode hasEngine e).session.state.runUntil =
      (s.begins? e).or s.state.runUntil := by
  rcases hresponse : s.response? e with _ | response
  · rw [(state_receive_of_none hresponse mode hasEngine).1, begins?_of_none hresponse]
    rfl
  · rw [receive_of_response? hresponse]
    rcases hfault : (s.before e).fault with _ | fault
    · rw [Turn.andThen_of_none hfault]
      dsimp only
      rw [state_release, state_before]
    · rw [Turn.andThen_of_some hfault, state_before]

/-- **A message sets the mode of stepping** if it finds something pending and its content asks for a
mode. -/
theorem fastStep_receive {mode : ScopeMode} {hasEngine : Bool}
    (hfault : (s.receive mode hasEngine e).fault = none) :
    (s.receive mode hasEngine e).session.state.fastStep =
      ((s.found? e).bind fun _ => (s.response? e).bind (·.content.fastStep?)).getD
        s.state.fastStep := by
  rcases hresponse : s.response? e with _ | response
  · rw [(state_receive_of_none hresponse mode hasEngine).2, found?, hresponse]
    rfl
  · rw [receive_of_response? hresponse] at hfault ⊢
    rw [Turn.andThen_of_none (Turn.fault_of_andThen hfault)]
    dsimp only
    rw [state_release, state_before, found?, hresponse]
    rfl

end

end Session

end DebugBridge

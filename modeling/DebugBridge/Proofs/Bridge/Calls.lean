import DebugBridge.Proofs.Bridge.Basic
import DebugBridge.Proofs.Session.Calls
import Mathlib.Data.List.Nodup

/-!
# Bridge/Calls — what an input does to the calls that wait

Whatever the input is, the calls that it parks, those that depart and the one that returns without
having waited are known (`moves_step`). A call departs for one of four reasons (`Lawful`): it is
resumed by a response to its id, it is handed to the engine, the session ends, or its entry is let
go. The last happens in two ways: an earlier request is answered under the id where the call waits,
late or because its run is superseded, or a step reaches the target of a run with that id.
-/

namespace DebugBridge

/-- The departures that the end of a session brings. -/
def Session.closing (s : Session) : List Departure :=
  s.pending.calls.map fun place => ⟨place.1, place.2, some (.failed .sessionClosed)⟩

theorem Session.mem_closing {s : Session} {d : Departure} :
    d ∈ s.closing ↔ d.place ∈ s.pending.calls ∧ d.ending? = some (.failed .sessionClosed) := by
  rw [closing, List.mem_map]
  constructor
  · rintro ⟨place, hplace, rfl⟩
    exact ⟨hplace, rfl⟩
  · rintro ⟨hplace, hending⟩
    refine ⟨d.place, hplace, ?_⟩
    rw [← hending]
    rfl

/-- The end of a session ends every wait. -/
theorem Session.tracks_close (s : Session) :
    Tracks s.pending.calls [] s.close [] s.closing [] := by
  rw [s.close_eq]
  refine ⟨?_, ?_, ?_, by rw [Effect.filterMap_injection?_wakes]; simp⟩
  · rw [List.append_nil, List.nil_append, closing, List.map_map]
    exact List.Perm.of_eq (List.map_id _).symm
  · rw [Effect.filterMap_return?_wakes, List.append_nil, closing, List.map_map, List.filterMap_map]
    exact List.Perm.of_eq (congrFun (List.filterMap_eq_map
      (f := fun place : RequestId × CallId => (place.2, Outcome.failed .sessionClosed))) _).symm
  · rw [Effect.filterMap_handed?_wakes, closing, List.filterMap_map]
    exact (List.filterMap_eq_nil_iff.2 fun _ _ => rfl).symm

/-- How a call returns that never waits. -/
def Outcome.AtOnce (outcome : Outcome) : Prop :=
  outcome = .skipped ∨ outcome = .disconnected .disconnected ∨
    ∃ fault, outcome = .failed fault ∧ (fault.OfSending ∨ ∃ id, fault = .duplicateRequest id)

namespace Bridge

/-- The calls that wait in the live session. -/
def parked (b : Bridge) : List (RequestId × CallId) :=
  b.session.elim [] (·.pending.calls)

/-- The id under which an input answers a request of the live session when the engine is done. -/
def late? (b : Bridge) : Input → Option RequestId
  | .injected injection _ => (b.session? injection.session).map fun _ => injection.replyTo
  | .storageRead read _ | .storageRefused read =>
    (b.session? read.session).map fun _ => read.replyTo
  | _ => none

/-- The id of the earlier request that an input answers: it is late, or its run is superseded. -/
def answered? (b : Bridge) : Input → Option RequestId
  | .frame id bytes =>
    match Envelope.decode bytes, b.session? id with
    | .ok e, some s => s.superseded? e
    | _, _ => none
  | input => b.late? input

theorem answered?_of_late? {b : Bridge} {input : Input} {id : RequestId}
    (h : b.late? input = some id) : b.answered? input = some id := by
  rcases input with _ | _ | _ | _ | _ | _ | _ | _ | _ | _ | _ | _ | _
  case frame => cases h
  all_goals exact h

/-- The result of a service is for the earlier request that it names. -/
theorem answered?_of_service? {b : Bridge} {input : Input} {id : SessionId} {replyTo : RequestId}
    (h : input.service? = some (id, replyTo)) :
    b.answered? input = (b.session? id).map fun _ => replyTo := by
  rcases input with _ | _ | _ | _ | _ | _ | _ | _ | _ | _ | _ | _ | _
  case injected | storageRead | storageRefused =>
    obtain ⟨rfl, rfl⟩ := Prod.mk.inj (Option.some.inj h)
    rfl
  all_goals cases h

theorem answered?_of_received {b : Bridge} {s : Session} (h : b.session = some s) {e : Envelope}
    {bytes : List UInt8} (hdecode : Envelope.decode bytes = .ok e) :
    b.answered? (.frame s.id bytes) = s.superseded? e := by
  rw [answered?, hdecode, session?_eq_some_iff.2 ⟨h, rfl⟩]

/-- Only requests of the debugger and results of services answer anything. -/
theorem answered?_eq_none {b : Bridge} {input : Input} (hrequest : b.request? input = none)
    (hservice : input.service? = none) : b.answered? input = none := by
  rcases input with _ | _ | _ | _ | _ | _ | _ | ⟨id, bytes⟩ | _ | _ | _ | _ | _
  case frame =>
    rw [answered?]
    rw [request?] at hrequest
    split
    · next e s hdecode hlive =>
      rw [hdecode, hlive] at hrequest
      rcases htype : e.type
      · simp [htype] at hrequest
      · rw [Session.superseded?, htype]
    · rfl
  case injected | storageRead | storageRefused => cases hservice
  all_goals rfl

/-- An answer is late, or it is for the run under way. -/
theorem late_or_superseded {b : Bridge} {input : Input} {id : RequestId}
    (h : b.answered? input = some id) :
    b.late? input = some id ∨ ∃ s ∈ b.session, ∃ cursor ∈ s.state.runUntil, cursor.id = id := by
  rcases input with _ | _ | _ | _ | _ | _ | _ | ⟨session, bytes⟩ | _ | _ | _ | _ | _
  case frame =>
    rw [answered?] at h
    split at h
    · next s _ hlive =>
      obtain ⟨-, -, -, previous, hprevious, hid⟩ := Session.of_superseded? h
      exact Or.inr ⟨s, (session?_eq_some_iff.1 hlive).1, previous, hprevious, hid⟩
    · cases h
  all_goals exact Or.inl h

end Bridge

/-- **The reasons for which a call departs**, from one bridge to the next. -/
def Departure.Lawful (d : Departure) (b : Bridge) (answered? : Option RequestId) (after : Bridge) :
    Prop :=
  d.place ∈ b.parked ∧
    match d.ending? with
    | none => after.isConnected
    | some (.resumed response) => response.id = d.id ∧ after.isConnected
    | some (.failed fault) => fault = .sessionClosed ∧ after.session = none
    | some .released =>
      answered? = some d.id ∨
        (∃ s ∈ b.session, ∃ cursor ∈ s.state.runUntil, cursor.id = d.id) ∧ after.isConnected

namespace Bridge

/-- **What an operation does to the calls**: at most one call is new, and it is parked or returns at
once. When the call itself ends the session, it returns with the reason. -/
structure Moves (b : Bridge) (answered? : Option RequestId) (result : Bridge × List Effect)
    (parked : List (RequestId × CallId)) (gone : List Departure)
    (atOnce : List (CallId × Outcome)) : Prop where
  tracks : Tracks b.parked result.1.parked result.2 parked gone atOnce
  lawful : ∀ d ∈ gone, d.Lawful b answered? result.1
  answered : ∀ id ∈ answered?, ∀ call, (id, call) ∈ b.parked →
    ⟨id, call, some .released⟩ ∈ gone
  own : result.1.calls = b.calls ∧ parked = [] ∧ atOnce = [] ∨
    result.1.calls = b.calls + 1 ∧ parked.map (·.2) ++ atOnce.map (·.1) = [b.calls]
  outcome : ∀ returned ∈ atOnce, returned.2.AtOnce
  ended : b.session.isSome → result.1.session = none →
    parked = [] ∧ ∀ returned ∈ atOnce, ∃ fault : BridgeError, fault.OfSending ∧
      returned.2 = .failed fault

section

variable {b c : Bridge} {s : Session} {t : Turn} {answered? : Option RequestId}
  {parked : List (RequestId × CallId)} {gone : List Departure} {atOnce : List (CallId × Outcome)}

theorem parked_of_some (h : b.session = some s) : b.parked = s.pending.calls := by
  rw [Bridge.parked, h]
  rfl

/-- An operation in which no call moves. -/
theorem moves_of_same {effects : List Effect} (hparked : b.parked.Perm c.parked)
    (hcalls : c.calls = b.calls)
    (hreturns : effects.filterMap Effect.return? = [])
    (hhands : effects.filterMap Effect.injection? = []) :
    b.Moves none (c, effects) [] [] [] where
  tracks := .of_quiet hparked hreturns hhands
  lawful := by simp
  answered := by simp
  own := Or.inl ⟨hcalls, rfl, rfl⟩
  outcome := by simp
  ended := fun _ _ => ⟨rfl, by simp⟩

/-- A departure that a message brings is lawful when the session goes on. -/
theorem lawful_keep {d : Departure} (h : b.session = some s) (hd : d.Fits s answered? t) :
    d.Lawful b answered? (c.keep t).1 := by
  obtain ⟨id, call, ending?⟩ := d
  obtain ⟨hplace, hending⟩ := hd
  refine ⟨parked_of_some h ▸ hplace, ?_⟩
  rcases ending? with _ | response | fault | _
  · rfl
  · exact ⟨hending.1, rfl⟩
  · exact hending.elim
  · exact Or.inl hending

/-- So it is when the session ends: then nothing has been resumed or handed over. -/
theorem lawful_abort {d : Departure} (h : b.session = some s) (hd : d.Fits s answered? t)
    (hfault : t.fault ≠ none) : d.Lawful b answered? (c.abort t).1 := by
  obtain ⟨id, call, ending?⟩ := d
  obtain ⟨hplace, hending⟩ := hd
  refine ⟨parked_of_some h ▸ hplace, ?_⟩
  rcases ending? with _ | response | fault | _
  · exact absurd hending hfault
  · exact absurd hending.2 hfault
  · exact hending.elim
  · exact Or.inl hending

/-- Going on with the session after a turn. -/
theorem moves_keep (h : b.session = some s)
    (htracks : Tracks s.pending.calls t.session.pending.calls t.effects parked gone atOnce)
    (hlawful : ∀ d ∈ gone, d.Lawful b answered? (c.keep t).1)
    (hanswered : ∀ id ∈ answered?, ∀ call, (id, call) ∈ b.parked →
      ⟨id, call, some .released⟩ ∈ gone)
    (hown : c.calls = b.calls ∧ parked = [] ∧ atOnce = [] ∨
      c.calls = b.calls + 1 ∧ parked.map (·.2) ++ atOnce.map (·.1) = [b.calls])
    (houtcome : ∀ returned ∈ atOnce, returned.2.AtOnce) :
    b.Moves answered? (c.keep t) parked gone atOnce where
  tracks := parked_of_some h ▸ htracks
  lawful := hlawful
  answered := hanswered
  own := hown
  outcome := houtcome
  ended := by rintro - ⟨⟩

/-- Ending the session after a turn: whatever still waits departs. -/
theorem moves_abort (h : b.session = some s)
    (htracks : Tracks s.pending.calls t.session.pending.calls t.effects [] gone atOnce)
    (hlawful : ∀ d ∈ gone, d.Lawful b answered? (c.abort t).1)
    (hanswered : ∀ id ∈ answered?, ∀ call, (id, call) ∈ b.parked →
      ⟨id, call, some .released⟩ ∈ gone)
    (hown : c.calls = b.calls ∧ atOnce = [] ∨
      c.calls = b.calls + 1 ∧ atOnce.map (·.1) = [b.calls])
    (houtcome : ∀ returned ∈ atOnce, ∃ fault : BridgeError, fault.OfSending ∧
      returned.2 = .failed fault) :
    b.Moves answered? (c.abort t) [] (gone ++ t.session.closing) atOnce where
  tracks := by
    have hclosed := htracks.trans t.session.tracks_close
    simp only [List.append_nil] at hclosed
    exact parked_of_some h ▸ hclosed
  lawful := by
    intro d hd
    rcases List.mem_append.1 hd with hd | hd
    · exact hlawful d hd
    · obtain ⟨hplace, hending⟩ := Session.mem_closing.1 hd
      refine ⟨parked_of_some h ▸ htracks.mem_before hplace, ?_⟩
      rw [hending]
      exact ⟨rfl, rfl⟩
  answered := fun id hid call hcall => List.mem_append_left _ (hanswered id hid call hcall)
  own := by
    rcases hown with ⟨hcalls, hnil⟩ | ⟨hcalls, hcall⟩
    · exact Or.inl ⟨hcalls, rfl, hnil⟩
    · exact Or.inr ⟨hcalls, hcall⟩
  outcome := by
    intro returned hmem
    obtain ⟨fault, hfault, heq⟩ := houtcome returned hmem
    exact Or.inr (Or.inr ⟨fault, heq, Or.inl hfault⟩)
  ended := fun _ _ => ⟨rfl, houtcome⟩

/-- The end of the session by its link or by request. -/
theorem moves_lose (h : b.session = some s) : b.Moves none (b.lose s) [] s.closing [] where
  tracks := parked_of_some h ▸ s.tracks_close
  lawful := by
    intro d hd
    obtain ⟨hplace, hending⟩ := Session.mem_closing.1 hd
    refine ⟨parked_of_some h ▸ hplace, ?_⟩
    rw [hending]
    exact ⟨rfl, rfl⟩
  answered := by simp
  own := Or.inl ⟨rfl, rfl, rfl⟩
  outcome := by simp
  ended := fun _ _ => ⟨rfl, by simp⟩

/-! ## Calls -/

theorem tracks_returning_of_none (htracks : t.Tracks s parked gone) (hfault : t.fault = none)
    (call : CallId) : (returning call t).Tracks s parked gone := by
  have heffects : (returning call t).effects = t.effects ++ [] := by
    rw [returning, hfault]
    rfl
  rw [List.append_nil] at heffects
  rw [Turn.Tracks, heffects]
  exact htracks

/-- A call that is cut short returns with the reason. -/
theorem tracks_returning_of_some {fault : BridgeError} (htracks : t.Tracks s parked gone)
    (hfault : t.fault = some fault) (call : CallId) :
    Tracks s.pending.calls t.session.pending.calls (returning call t).effects parked gone
      [(call, .failed fault)] := by
  have heffects : (returning call t).effects = t.effects ++ [.finish call (.failed fault)] := by
    rw [returning, hfault]
    rfl
  have hown : Tracks t.session.pending.calls t.session.pending.calls
      [.finish call (.failed fault)] [] [] [(call, .failed fault)] :=
    ⟨.refl _, .refl _, rfl, by simp [Effect.injection?]⟩
  have hboth := htracks.trans hown
  simp only [List.append_nil, List.nil_append] at hboth
  exact heffects ▸ hboth

/-- A call that returns without the session. -/
theorem moves_calling {outcome : Outcome} (houtcome : outcome.AtOnce)
    (h : b.session.isSome → b.calling.session.isSome) :
    b.Moves none (b.calling, [.finish b.calls outcome]) [] [] [(b.calls, outcome)] where
  tracks := ⟨.refl _, .refl _, rfl, by simp [Effect.injection?]⟩
  lawful := by simp
  answered := by simp
  own := Or.inr ⟨rfl, rfl⟩
  outcome := by simpa using houtcome
  ended := fun hsome hnone => by
    have hlive := h hsome
    rw [hnone] at hlive
    cases hlive

/-- A call that asks the debugger is parked, or returns with the reason why it cannot be. -/
theorem moves_forward (h : b.session = some s) (id : RequestId) (trigger : String)
    (content : Content) :
    ∃ parked gone atOnce, b.Moves none
      (b.calling.settle (returning b.calls (s.forward b.calls id trigger content)))
      parked gone atOnce := by
  have hforward := s.tracks_forward b.calls id trigger content
  generalize s.forward b.calls id trigger content = turn at hforward ⊢
  rcases hforward with ⟨hfault, htracks⟩ | ⟨fault, hfault, hreason, htracks⟩
  · have hsettle : b.calling.settle (returning b.calls turn) =
        b.calling.keep (returning b.calls turn) := by
      rw [settle, returning, hfault]
      rfl
    rw [hsettle]
    exact ⟨_, _, _, moves_keep h (tracks_returning_of_none htracks hfault _) (by simp) (by simp)
      (Or.inr ⟨rfl, rfl⟩) (by simp)⟩
  · have hreturns := tracks_returning_of_some htracks hfault b.calls
    rw [settle]
    split
    · next htransport =>
      have hsending : fault.OfSending := by
        rcases hreason with hsending | rfl
        · exact hsending
        · rw [returning, hfault] at htransport
          cases htransport
      exact ⟨_, _, _, moves_abort h hreturns (by simp) (by simp) (Or.inr ⟨rfl, rfl⟩)
        (by simpa using hsending)⟩
    · refine ⟨_, _, _, moves_keep h hreturns (by simp) (by simp) (Or.inr ⟨rfl, rfl⟩) ?_⟩
      intro returned hmem
      rw [List.mem_singleton.1 hmem]
      refine Or.inr (Or.inr ⟨fault, rfl, ?_⟩)
      rcases hreason with hsending | rfl
      · exact Or.inl hsending
      · exact Or.inr ⟨id, rfl⟩

/-- The call of the step at the target of the run under way is parked, or returns with the reason
why its answer cannot be sent. -/
theorem moves_reachTarget (h : b.session = some s) {cursor : RunUntil}
    (hcursor : s.state.runUntil = some cursor) (content : Content) :
    ∃ parked gone atOnce, b.Moves none
      (if (s.reachTarget b.calls cursor.id content).fault.isSome then
        b.calling.abort (returning b.calls (s.reachTarget b.calls cursor.id content))
      else b.calling.keep (returning b.calls (s.reachTarget b.calls cursor.id content)))
      parked gone atOnce := by
  have hreach := s.tracks_reachTarget b.calls cursor.id content
  generalize s.reachTarget b.calls cursor.id content = turn at hreach ⊢
  rcases hreach with ⟨hfault, htracks⟩ | ⟨fault, hfault, hreason, htracks⟩
  · rw [hfault]
    refine ⟨_, _, _, moves_keep h (tracks_returning_of_none htracks hfault _) ?_ (by simp)
      (Or.inr ⟨rfl, rfl⟩) (by simp)⟩
    intro d hd
    obtain ⟨hget, hid, hending⟩ := Session.mem_departure.1 hd
    refine ⟨parked_of_some h ▸ Session.mem_calls_of_departure hd, ?_⟩
    rw [hending]
    exact Or.inr ⟨⟨s, h, cursor, hcursor, hid.symm⟩, rfl⟩
  · rw [hfault]
    exact ⟨_, _, _, moves_abort h (tracks_returning_of_some htracks hfault _) (by simp)
      (by simp) (Or.inr ⟨rfl, rfl⟩) (by simpa using hreason)⟩

/-! ## Messages and services -/

/-- The calls that depart where an id is answered. -/
theorem mem_gone_of_answered (h : b.session = some s) {id : RequestId}
    (hgone : s.departure id (some .released) ⊆ gone) {call : CallId}
    (hcall : (id, call) ∈ b.parked) : ⟨id, call, some .released⟩ ∈ gone := by
  rw [parked_of_some h, Pending.mem_calls] at hcall
  exact hgone (Session.mem_departure.2 ⟨hcall, rfl, rfl⟩)

/-- A message of the debugger. -/
theorem moves_receive (h : b.session = some s) (e : Envelope) :
    ∃ gone, b.Moves (s.superseded? e) (b.settle (s.receive b.config.scopeMode b.hasEngine e))
      [] gone [] := by
  obtain ⟨gone, htracks, hfits, hgone⟩ := s.tracks_receive b.config.scopeMode b.hasEngine e
  have hanswered : ∀ id ∈ s.superseded? e, ∀ call, (id, call) ∈ b.parked →
      ⟨id, call, some .released⟩ ∈ gone :=
    fun id hid call => mem_gone_of_answered h (hgone id hid)
  generalize s.receive b.config.scopeMode b.hasEngine e = turn at htracks hfits ⊢
  rw [settle]
  split
  · next htransport =>
    have hfault : turn.fault ≠ none := by
      intro hnone
      rw [hnone] at htransport
      cases htransport
    exact ⟨_, moves_abort h htracks (fun d hd => lawful_abort h (hfits d hd) hfault) hanswered
      (Or.inl ⟨rfl, rfl⟩) (by simp)⟩
  · exact ⟨_, moves_keep h htracks (fun d hd => lawful_keep h (hfits d hd)) hanswered
      (Or.inl ⟨rfl, rfl, rfl⟩) (by simp)⟩

/-- A late answer lets go of the call under its id. -/
theorem moves_answer (b : Bridge) (id : SessionId) (replyTo : RequestId) (content : Content) :
    ∃ gone, b.Moves ((b.session? id).map fun _ => replyTo) (b.answer id replyTo content)
      [] gone [] := by
  rcases hlive : b.session? id with _ | s
  · rw [answer_of_none hlive]
    exact ⟨_, moves_of_same (.refl _) rfl rfl rfl⟩
  · obtain ⟨hs, rfl⟩ := session?_eq_some_iff.1 hlive
    have hlawful (after : Bridge) : ∀ d ∈ s.departure replyTo (some .released),
        d.Lawful b (some replyTo) after := by
      intro d hd
      obtain ⟨hget, hid, hending⟩ := Session.mem_departure.1 hd
      refine ⟨parked_of_some hs ▸ Session.mem_calls_of_departure hd, ?_⟩
      rw [hending]
      exact Or.inl (congrArg some hid.symm)
    have hanswered : ∀ id ∈ some replyTo, ∀ call, (id, call) ∈ b.parked →
        ⟨id, call, some .released⟩ ∈ s.departure replyTo (some .released) := by
      rintro _ ⟨⟩ call
      exact mem_gone_of_answered hs (List.Subset.refl _)
    have htracks := s.tracks_reply replyTo content
    rw [answer_of_some hs]
    split
    · exact ⟨_, moves_abort hs htracks (hlawful _) hanswered (Or.inl ⟨rfl, rfl⟩) (by simp)⟩
    · exact ⟨_, moves_keep hs htracks (hlawful _) hanswered (Or.inl ⟨rfl, rfl, rfl⟩) (by simp)⟩

end

/-- Answering hands no call to the engine. -/
theorem filterMap_handed?_answer (b : Bridge) (id : SessionId) (replyTo : RequestId)
    (content : Content) : (b.answer id replyTo content).2.filterMap Effect.handed? = [] := by
  rcases hlive : b.session? id with _ | s
  · rw [answer_of_none hlive]
    rfl
  · obtain ⟨hs, rfl⟩ := session?_eq_some_iff.1 hlive
    rw [answer_of_some hs]
    split
    · show (_ ++ Session.close _).filterMap Effect.handed? = []
      rw [List.filterMap_append, Session.filterMap_handed?_reply, Session.close,
        Effect.filterMap_handed?_wakes]
      rfl
    · exact s.filterMap_handed?_reply replyTo content

/-- **What every input does to the calls.** -/
theorem moves_step (b : Bridge) (input : Input) :
    ∃ parked gone atOnce, b.Moves (b.answered? input) (b.step input) parked gone atOnce := by
  have h := b.stepped input
  generalize b.step input = result at h ⊢
  cases h with
  | unmoved _ hservice hrequest =>
    rw [answered?_eq_none hrequest hservice]
    exact ⟨_, _, _, moves_of_same (.refl _) rfl rfl rfl⟩
  | equipped | suppressing => exact ⟨_, _, _, moves_of_same (.refl _) rfl rfl rfl⟩
  | finalized address =>
    have hparked : b.parked = (b.finalize address).parked := by
      unfold parked finalize
      rcases b.session <;> rfl
    exact ⟨_, _, _, moves_of_same (List.Perm.of_eq hparked) rfl rfl rfl⟩
  | began hnone =>
    refine ⟨_, _, _, moves_of_same ?_ rfl rfl rfl⟩
    rw [parked, hnone]
    exact .refl _
  | deafened hs =>
    have hparked := parked_of_some hs
    exact ⟨_, _, _, moves_of_same (List.Perm.of_eq hparked) rfl rfl rfl⟩
  | dropped hs | closed hs => exact ⟨_, _, _, moves_lose hs⟩
  | unattended _ hmade =>
    obtain ⟨hrequest, hservice⟩ := request?_of_made? (b := b) hmade
    rw [answered?_eq_none hrequest hservice]
    exact ⟨_, _, _, moves_calling (Or.inr (Or.inl rfl)) fun hsome => hsome⟩
  | skipped => exact ⟨_, _, _, moves_calling (Or.inl rfl) fun hsome => hsome⟩
  | asked hs hasks =>
    obtain ⟨hrequest, hservice⟩ := request?_of_made? (b := b) (made?_of_asks? hasks)
    rw [answered?_eq_none hrequest hservice]
    exact moves_forward hs _ _ _
  | reached _ hs hcursor => exact moves_reachTarget hs hcursor _
  | received hs hdecode =>
    rw [answered?_of_received hs hdecode]
    obtain ⟨gone, hmoves⟩ := moves_receive hs _
    exact ⟨_, _, _, hmoves⟩
  | answered hservice =>
    rw [answered?_of_service? hservice]
    obtain ⟨gone, hmoves⟩ := b.moves_answer _ _ _
    exact ⟨_, _, _, hmoves⟩

/-! ## What is known of one call -/

section

variable {b : Bridge} {answered? : Option RequestId} {result : Bridge × List Effect}
  {parked : List (RequestId × CallId)} {gone : List Departure} {atOnce : List (CallId × Outcome)}

/-- A call that waits still does, or departs. -/
theorem Moves.stays_or_departs (h : b.Moves answered? result parked gone atOnce)
    {place : RequestId × CallId} (hplace : place ∈ b.parked) :
    place ∈ result.1.parked ∨ ∃ d ∈ gone, d.place = place := by
  have hmem := h.tracks.table.mem_iff.1 (List.mem_append_left _ hplace)
  rcases List.mem_append.1 hmem with hmem | hmem
  · exact Or.inl hmem
  · exact Or.inr (List.mem_map.1 hmem)

/-- Where every call waits once, none departs twice. -/
theorem Moves.nodup_gone (h : b.Moves answered? result parked gone atOnce)
    (hnodup : (b.parked.map (·.2)).Nodup) (hmade : ∀ place ∈ b.parked, place.2 < b.calls) :
    (gone.map (·.call)).Nodup := by
  have hnew : parked.map (·.2) = [] ∨ parked.map (·.2) = [b.calls] := by
    rcases h.own with ⟨-, rfl, -⟩ | ⟨-, hown⟩
    · exact Or.inl rfl
    · rcases hparked : parked.map (·.2) with _ | ⟨call, rest⟩
      · exact Or.inl hparked
      · rw [hparked, List.cons_append] at hown
        obtain ⟨rfl, hrest⟩ := List.cons.inj hown
        exact Or.inr (by rw [hparked, (List.append_eq_nil_iff.1 hrest).1])
  have hall : ((b.parked ++ parked).map (·.2)).Nodup := by
    rw [List.map_append, List.nodup_append]
    refine ⟨hnodup, ?_, fun call hcall other hother => ?_⟩
    · rcases hnew with hnew | hnew <;> simp [hnew]
    · obtain ⟨place, hplace, rfl⟩ := List.mem_map.1 hcall
      have hlt := hmade place hplace
      rcases hnew with hnew | hnew
      · rw [hnew] at hother
        cases hother
      · rw [hnew, List.mem_singleton] at hother
        exact fun heq => Nat.lt_irrefl _ (hother ▸ heq ▸ hlt)
  have hafter := (h.tracks.table.map (·.2)).nodup_iff.1 hall
  rw [List.map_append] at hafter
  have hgone := (List.nodup_append.1 hafter).2.1
  rwa [List.map_map] at hgone

/-- **A call that departs returns as its wait ends**, and in no other way. -/
theorem Moves.returns_iff (h : b.Moves answered? result parked gone atOnce)
    (hnodup : (b.parked.map (·.2)).Nodup) (hmade : ∀ place ∈ b.parked, place.2 < b.calls)
    {d : Departure} (hd : d ∈ gone) (outcome : Outcome) :
    (d.call, outcome) ∈ result.2.filterMap Effect.return? ↔
      ∃ ending, d.ending? = some ending ∧ outcome = ending.outcome := by
  rw [h.tracks.returns.mem_iff, List.mem_append]
  constructor
  · rintro (hmem | hmem)
    · obtain ⟨other, hother, hreturn⟩ := List.mem_filterMap.1 hmem
      obtain ⟨ending, hending, heq⟩ := Option.map_eq_some_iff.1 hreturn
      obtain ⟨hcall, rfl⟩ := Prod.mk.inj heq
      have hsame := List.inj_on_of_nodup_map (h.nodup_gone hnodup hmade) hother hd hcall
      exact ⟨ending, hsame ▸ hending, rfl⟩
    · have hlt := hmade d.place (h.lawful d hd).1
      rcases h.own with ⟨-, -, rfl⟩ | ⟨-, hown⟩
      · cases hmem
      · have hcall : d.call ∈ [b.calls] := by
          rw [← hown]
          exact List.mem_append_right _ (List.mem_map_of_mem (f := (·.1)) hmem)
        exact absurd (List.mem_singleton.1 hcall) (Nat.ne_of_lt hlt)
  · rintro ⟨ending, hending, rfl⟩
    refine Or.inl (List.mem_filterMap.2 ⟨d, hd, ?_⟩)
    rw [Departure.return?, hending]
    rfl

end

end Bridge

end DebugBridge

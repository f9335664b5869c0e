import DebugBridge.Proofs.Bridge.Calls
import DebugBridge.Proofs.Session.Serving

/-!
# Bridge/Target — no call waits under the id of the run under way

The id of a run is one that was not pending when the debugger chose it, and a call is parked under
it only when the run is over. So if the ids that the bridge makes are new, the entry of the run
under way is never one of a call (`ClearTarget`), and no call is let go because a run takes the
place of another.
-/

namespace DebugBridge

namespace Session

/-- What a session has in hand is the run under way. -/
theorem mem_dues {s : Session} {id : RequestId} :
    id ∈ s.dues ↔ ∃ cursor ∈ s.state.runUntil, cursor.id = id := by
  rw [dues, List.mem_map]
  simp only [Option.mem_toList]
  rfl

/-- Sending leaves in hand what was. -/
theorem dues_send (s : Session) (e : Envelope) : (s.send e).session.dues = s.dues := by
  rcases s.send_cases e with ⟨frame, -, h⟩ | ⟨fault, -, h⟩ <;> rw [h]

/-- A reply leaves in hand what was. -/
theorem dues_reply (s : Session) (id : RequestId) (content : Content) :
    (s.reply id content).session.dues = s.dues :=
  dues_send { s with pending := (s.pending.drop id).1 } (.response id content)

/-- After a turn that reaches the target there is no run. -/
theorem dues_reachTarget (s : Session) (call : CallId) (id : RequestId) (content : Content) :
    (s.reachTarget call id content).session.dues = [] := by
  rw [reachTarget]
  dsimp only
  rcases send_cases { s with state := { s.state with runUntil := none } } (.response id content)
    with ⟨frame, -, h⟩ | ⟨fault, -, h⟩
  · rw [h]
    rfl
  · rw [h]
    rfl

/-- After a request for a run only that run is in hand. -/
theorem dues_runUntil (s : Session) (id stepId : RequestId) (pc : UInt64) (content : Content) :
    (s.runUntil id stepId pc content).session.dues = [id] := by
  have hnext (t : Turn) (h : t.session.dues = [id]) (response : Envelope) :
      (t.andThen fun s => s.release response).session.dues = [id] := by
    rw [Turn.andThen]
    rcases t.fault with _ | fault
    · exact (t.session.quiet_release response).dues_eq.trans h
    · exact h
  refine hnext _ ?_ _
  rcases s.state.runUntil with _ | previous
  · rfl
  · exact dues_reply _ _ _

/-- A message of the debugger leaves the run under way, or begins one under an id that was not
pending. -/
theorem dues_receive (s : Session) (mode : ScopeMode) (hasEngine : Bool) (e : Envelope)
    {id : RequestId} (hid : id ∈ (s.receive mode hasEngine e).session.dues) :
    id ∈ s.dues ∨ s.pending.get? id = none := by
  rw [receive] at hid
  rcases htype : e.type
  · rw [htype] at hid
    have h := s.handled mode hasEngine e
    dsimp only at hid
    generalize s.handle mode hasEngine e = turn at h hid
    rcases h with ⟨hsetUp, -⟩ | ⟨address, slot, h⟩ | ⟨stepId, h⟩ | ⟨stepId, pc, h, -⟩
    · obtain ⟨breakpoints, jumpDestinations, declarations, rfl⟩ := hsetUp
      rw [dues_send] at hid
      exact Or.inl hid
    · exact Or.inl hid
    · rw [inject] at hid
      split at hid <;> exact Or.inl hid
    · rw [dues_runUntil, List.mem_singleton] at hid
      exact Or.inr (hid ▸ h)
  · rw [htype] at hid
    exact Or.inl ((s.quiet_release e).dues_eq ▸ hid)

/-- **No call waits under the id of the run under way.** -/
def ClearTarget (s : Session) : Prop :=
  ∀ id ∈ s.dues, ∀ call, (id, call) ∉ s.pending.calls

/-- A new session has no run, so no call waits for one. -/
theorem clearTarget_start (id : SessionId) (runtime : KeySet) :
    (Session.start id runtime).ClearTarget :=
  fun _ hid => absurd hid List.not_mem_nil

/-- A new id is not the one of the run under way. -/
theorem ClearTarget.forward {s : Session} (h : s.ClearTarget) {id : RequestId} (hid : id ∉ s.dues)
    (call : CallId) (trigger : String) (content : Content) :
    (s.forward call id trigger content).session.ClearTarget := by
  intro target htarget waiting hmem
  rw [(s.quiet_forward call id trigger content).dues_eq] at htarget
  rcases s.tracks_forward call id trigger content with ⟨-, htracks⟩ | ⟨fault, -, -, htracks⟩
  · have hmem := htracks.table.mem_iff.2 (List.mem_append_left _ hmem)
    rcases List.mem_append.1 hmem with hmem | hmem
    · exact h target htarget waiting hmem
    · have heq : target = id := congrArg Prod.fst (List.mem_singleton.1 hmem)
      exact hid (heq ▸ htarget)
  · exact h target htarget waiting (htracks.mem_before hmem)

/-- A step at its target ends the run. -/
theorem ClearTarget.reachTarget (s : Session) (call : CallId) (id : RequestId)
    (content : Content) : (s.reachTarget call id content).session.ClearTarget := by
  intro target htarget
  rw [dues_reachTarget] at htarget
  exact absurd htarget List.not_mem_nil

/-- A reply enters nothing in the table. -/
theorem ClearTarget.reply {s : Session} (h : s.ClearTarget) (id : RequestId) (content : Content) :
    (s.reply id content).session.ClearTarget := by
  intro target htarget waiting hmem
  rw [dues_reply] at htarget
  exact h target htarget waiting ((s.tracks_reply id content).mem_before hmem)

/-- A new run has the id of a request, under which nothing was pending. -/
theorem ClearTarget.receive {s : Session} (h : s.ClearTarget) (mode : ScopeMode) (hasEngine : Bool)
    (e : Envelope) : (s.receive mode hasEngine e).session.ClearTarget := by
  intro target htarget waiting hmem
  obtain ⟨gone, htracks, -⟩ := s.tracks_receive mode hasEngine e
  have hbefore := htracks.mem_before hmem
  rcases s.dues_receive mode hasEngine e htarget with hdue | hnone
  · exact h target hdue waiting hbefore
  · rw [Pending.mem_calls, hnone] at hbefore
    cases hbefore

end Session

namespace Bridge

/-- The same of the live session, if there is one. -/
def ClearTarget (b : Bridge) : Prop :=
  ∀ s ∈ b.session, s.ClearTarget

section

variable {b : Bridge} {t : Turn}

/-- Going on keeps what the turn leaves clear. -/
theorem clearTarget_keep (h : t.session.ClearTarget) : (b.keep t).1.ClearTarget := by
  rintro _ ⟨⟩
  exact h

/-- Without a session nothing waits. -/
theorem clearTarget_abort : (b.abort t).1.ClearTarget := by
  rintro _ ⟨⟩

/-- Whether the session goes on or ends, no call waits under the id of a run. -/
theorem clearTarget_settle (h : t.session.ClearTarget) : (b.settle t).1.ClearTarget := by
  rw [settle]
  split
  · exact clearTarget_abort
  · exact clearTarget_keep h

end

/-- A late answer enters nothing in the table. -/
theorem ClearTarget.answer {b : Bridge} (h : b.ClearTarget) (id : SessionId) (replyTo : RequestId)
    (content : Content) : (b.answer id replyTo content).1.ClearTarget := by
  rcases hlive : b.session? id with _ | s
  · rw [answer_of_none hlive]
    exact h
  · obtain ⟨hs, rfl⟩ := session?_eq_some_iff.1 hlive
    rw [answer_of_some hs]
    split
    · exact clearTarget_abort
    · exact clearTarget_keep ((h s hs).reply replyTo content)

/-- An input keeps the id of the run clear if the id that the bridge makes is another one. -/
theorem ClearTarget.step {b : Bridge} (h : b.ClearTarget) (input : Input)
    (hnew : ∀ id ∈ (Move.input input).made?, ∀ s ∈ b.session, id ∉ s.dues) :
    (b.step input).1.ClearTarget := by
  have hstepped := b.stepped input
  generalize b.step input = result at hstepped ⊢
  cases hstepped with
  | unmoved | equipped | suppressing | unattended | skipped => exact h
  | finalized =>
    intro t ht
    obtain ⟨s, hs, rfl⟩ := Option.map_eq_some_iff.1 (Option.mem_def.1 ht)
    exact h s hs
  | began =>
    rintro _ ⟨⟩
    exact Session.clearTarget_start _ _
  | deafened hs =>
    have hclear := h _ hs
    rintro _ ⟨⟩
    exact hclear
  | dropped | closed => rintro _ ⟨⟩
  | asked hs hasks =>
    exact clearTarget_settle ((h _ hs).forward (hnew _ (made?_of_asks? hasks) _ hs) _ _ _)
  | reached =>
    split
    · exact clearTarget_abort
    · exact clearTarget_keep (.reachTarget _ _ _ _)
  | received hs => exact clearTarget_settle ((h _ hs).receive _ _ _)
  | answered => exact h.answer _ _ _

/-- **Only a late answer lets go of a call**, under the id of the answer. -/
theorem Moves.late_of_released {b : Bridge} {input : Input} {result : Bridge × List Effect}
    {parked : List (RequestId × CallId)} {gone : List Departure} {atOnce : List (CallId × Outcome)}
    (h : b.Moves (b.answered? input) result parked gone atOnce) (hclear : b.ClearTarget)
    {d : Departure} (hd : d ∈ gone) (hending : d.ending? = some .released) :
    b.late? input = some d.id := by
  obtain ⟨hplace, hreason⟩ := h.lawful d hd
  have hnot : ¬∃ s ∈ b.session, ∃ cursor ∈ s.state.runUntil, cursor.id = d.id := by
    rintro ⟨s, hs, hdue⟩
    rw [parked_of_some hs] at hplace
    exact hclear s hs d.id (Session.mem_dues.2 hdue) d.call hplace
  rw [hending] at hreason
  rcases hreason with hanswered | ⟨htarget, -⟩
  · exact (late_or_superseded hanswered).resolve_right hnot
  · exact absurd htarget hnot

end Bridge

end DebugBridge

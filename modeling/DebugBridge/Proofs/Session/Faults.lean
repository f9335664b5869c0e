import DebugBridge.Proofs.Session.Handling

/-!
# Session/Faults — why a turn is cut short

There are two reasons why a message is not sent, and they do not mix: its content cannot be written,
or the link takes no frames (`deaf_of_receive` and its like). A request to the debugger that cannot
be written leaves the session as it was (`forward_unwritable`).
-/

namespace DebugBridge

/-- A message cannot be written exactly if its content cannot be. -/
theorem Envelope.frame_eq_error_iff {e : Envelope} {fault : WireError} :
    e.frame = .error fault ↔ e.content.encode = .error fault := by
  have hencode : e.encode = .error fault ↔ e.content.encode = .error fault := by
    rw [encode]
    rcases e.content.encode with other | value <;> simp [bind, Except.bind, pure, Except.pure]
  rw [← hencode, Envelope.frame]
  split
  · next bytes hbytes => simp [hbytes]
  · next other hother => simp [hother]

namespace Session

/-! ## What cannot be written -/

theorem send_unwritable {s : Session} {e : Envelope} {fault : WireError}
    (h : e.content.encode = .error fault) : s.send e = ⟨s, [], some (.wire fault)⟩ := by
  rw [send, frame, Envelope.frame_eq_error_iff.2 h]

theorem unwritable_of_fault_send {s : Session} {e : Envelope} {fault : WireError}
    (h : (s.send e).fault = some (.wire fault)) : e.content.encode = .error fault := by
  rw [send, frame] at h
  rcases hframe : e.frame with other | sent
  · rw [hframe] at h
    obtain rfl := BridgeError.wire.inj (Option.some.inj h)
    exact Envelope.frame_eq_error_iff.1 hframe
  · rw [hframe] at h
    rcases haccepting : s.accepting <;> simp [haccepting] at h

/-- **A request to the debugger that cannot be written** changes nothing. -/
theorem forward_unwritable {s : Session} {id : RequestId} (hid : s.pending.get? id = none)
    {content : Content} {fault : WireError} (h : content.encode = .error fault) (call : CallId)
    (trigger : String) :
    s.forward call id trigger content = ⟨s, [], some (.wire fault)⟩ := by
  have hheld : (⟨s.pending.entries.insert id (.resume call)⟩ : Pending).get? id =
      some (.resume call) := by simp
  rw [forward, Pending.register_of_none hid]
  dsimp only
  rw [send_unwritable (e := .request id trigger content) h]
  dsimp only
  rw [Pending.drop_of_some hheld, Pending.erase_insert hid]

/-- So does a step at the target of a run, but the run is over. -/
theorem reachTarget_unwritable {s : Session} {content : Content} {fault : WireError}
    (h : content.encode = .error fault) (call : CallId) (id : RequestId) :
    s.reachTarget call id content =
      ⟨{ s with state := { s.state with runUntil := none } }, [], some (.wire fault)⟩ := by
  rw [reachTarget]
  dsimp only
  rw [send_unwritable (e := .response id content) h]
  rfl

/-- The step at the target fails as its answer does. -/
theorem fault_reachTarget (s : Session) (call : CallId) (id : RequestId) (content : Content) :
    (s.reachTarget call id content).fault = (s.send (.response id content)).fault := by
  rw [reachTarget, Turn.andThen]
  unfold send frame
  rcases (Envelope.response id content).frame with fault | sent
  · rfl
  · rcases s.accepting <;> rfl

/-! ## When the link takes no frames -/

theorem deaf_of_send {s : Session} {e : Envelope}
    (h : (s.send e).fault = some (.transport .sendFailed)) : s.accepting = false := by
  rcases haccepting : s.accepting
  · rfl
  · rw [send, frame, haccepting] at h
    rcases hframe : e.frame with fault | sent <;> simp [hframe] at h

/-- **A flat message is sent while the link takes frames.** -/
theorem exists_send_of_accepting {s : Session} (h : s.accepting = true) {e : Envelope}
    (hflat : e.content.Flat) :
    ∃ frame : Frame, frame.envelope = e ∧ s.send e = ⟨s, [.send s.id frame], none⟩ := by
  rcases s.send_flat hflat with hsent | hfailed
  · exact hsent
  · rw [deaf_of_send (congrArg Turn.fault hfailed)] at h
    cases h

/-- So is what is asked of the debugger under a free id, and the call waits. -/
theorem exists_forward_of_accepting {s : Session} (h : s.accepting = true) {id : RequestId}
    (hid : s.pending.get? id = none) {content : Content} (hflat : content.Flat) (call : CallId)
    (trigger : String) :
    ∃ frame : Frame, frame.envelope = .request id trigger content ∧
      s.forward call id trigger content =
        ⟨{ s with pending := ⟨s.pending.entries.insert id (.resume call)⟩ }, [.send s.id frame],
          none⟩ := by
  obtain ⟨frame, henvelope, hsend⟩ := exists_send_of_accepting
    (s := { s with pending := ⟨s.pending.entries.insert id (.resume call)⟩ }) h
    (e := .request id trigger content) hflat
  refine ⟨frame, henvelope, ?_⟩
  rw [forward, Pending.register_of_none hid]
  dsimp only
  rw [hsend]

theorem deaf_of_forward {s : Session} {call : CallId} {id : RequestId} {trigger : String}
    {content : Content}
    (h : (s.forward call id trigger content).fault = some (.transport .sendFailed)) :
    s.accepting = false := by
  rcases hget : s.pending.get? id with _ | held
  · rw [forward, Pending.register_of_none hget] at h
    refine deaf_of_send (s := { s with pending := ⟨s.pending.entries.insert id (.resume call)⟩ })
      (e := .request id trigger content) ?_
    dsimp only at h
    split at h
    · assumption
    · exact h
  · rw [forward, Pending.register_of_some hget] at h
    cases h

theorem deaf_of_reply {s : Session} {id : RequestId} {content : Content}
    (h : (s.reply id content).fault = some (.transport .sendFailed)) : s.accepting = false :=
  deaf_of_send (s := { s with pending := (s.pending.drop id).1 }) (e := .response id content) h

theorem deaf_of_runUntil {s : Session} {id stepId : RequestId} {pc : UInt64} {content : Content}
    (h : (s.runUntil id stepId pc content).fault = some (.transport .sendFailed)) :
    s.accepting = false := by
  rw [runUntil, Turn.andThen] at h
  dsimp only at h
  split at h
  · rcases hprevious : s.state.runUntil with _ | previous
    · rw [hprevious] at h
      cases h
    · rw [hprevious] at h
      exact deaf_of_reply (s := { s with state := { s.state with runUntil := some ⟨id, pc⟩ } }) h
  · rw [fault_release] at h
    cases h

theorem deaf_of_receive {s : Session} {mode : ScopeMode} {hasEngine : Bool} {e : Envelope}
    (h : (s.receive mode hasEngine e).fault = some (.transport .sendFailed)) :
    s.accepting = false := by
  rw [receive] at h
  rcases htype : e.type
  · rw [htype] at h
    dsimp only at h
    have hhandled := s.handled mode hasEngine e
    generalize s.handle mode hasEngine e = turn at h hhandled
    rcases hhandled with ⟨hsetUp, -⟩ | ⟨address, slot, -⟩ | ⟨stepId, -⟩ | ⟨stepId, pc, -, -⟩
    · obtain ⟨breakpoints, jumpDestinations, declarations, rfl⟩ := hsetUp
      exact (deaf_of_send h :)
    · cases h
    · rw [fault_inject] at h
      cases h
    · exact (deaf_of_runUntil h :)
  · rw [htype] at h
    dsimp only at h
    rw [fault_release] at h
    cases h

/-- Nothing that a debugger sends fails but for the link. -/
theorem sound_receive (s : Session) (mode : ScopeMode) (hasEngine : Bool) (e : Envelope) :
    (s.receive mode hasEngine e).Sound := by
  rw [receive]
  rcases e.type
  · exact (s.handled mode hasEngine e).sound
  · exact Or.inl (s.fault_release e)

end Session

end DebugBridge

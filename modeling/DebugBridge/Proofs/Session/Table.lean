import DebugBridge.Proofs.Session.Calls
import DebugBridge.Proofs.Session.Serving

/-!
# Session/Table — what is pending after an operation

An operation of a session changes the entries under the ids that it is about, and leaves all others
alone. For each operation it is said what is pending under an id afterwards, and from this which
entries a whole message can touch (`spares_receive`): the one that a response answers, the step that
an injection or a new run names, and the run that the new one takes the place of.
-/

namespace DebugBridge

namespace Session

/-! ## One operation -/

/-- Sending leaves the session as it is. -/
theorem session_send (s : Session) (e : Envelope) : (s.send e).session = s := by
  rcases s.send_cases e with ⟨frame, -, h⟩ | ⟨fault, -, h⟩ <;> rw [h]

/-- A request of the debugger has an entry under its id, and nothing else changes. -/
theorem get?_awaiting (s : Session) (id k : RequestId) :
    (s.awaiting id).pending.get? k = if k = id then some .awaitingReply else s.pending.get? k :=
  KeyMap.get?_insert _ _ _ k

/-- A reply drops what is pending under its id. -/
theorem session_reply (s : Session) (id : RequestId) (content : Content) :
    (s.reply id content).session = { s with pending := (s.pending.drop id).1 } :=
  session_send { s with pending := (s.pending.drop id).1 } _

/-- Nothing is pending under the id of a reply, and all else stays. -/
theorem get?_reply (s : Session) (id : RequestId) (content : Content) (k : RequestId) :
    (s.reply id content).session.pending.get? k = if k = id then none else s.pending.get? k := by
  rw [session_reply]
  exact s.pending.get?_drop id k

/-- Nothing is pending under the id of a response, and all else stays. -/
theorem get?_release (s : Session) (response : Envelope) (k : RequestId) :
    (s.release response).session.pending.get? k =
      if k = response.id then none else s.pending.get? k := by
  rcases h : s.pending.get? response.id with _ | held
  · rw [release_of_none h]
    split
    · next heq => rw [heq]; exact h
    · rfl
  · rw [release_of_some h]
    exact KeyMap.get?_erase _ _ k

/-- The paused step that is named is taken out, and nothing else. -/
theorem get?_inject (s : Session) (id : RequestId) (stepId : Option RequestId) (content : Content)
    (k : RequestId) :
    (s.inject id stepId content).session.pending.get? k = s.pending.get? k ∨
      (stepId = some k ∧ (∃ call, s.pending.get? k = some (.resume call)) ∧
        (s.inject id stepId content).session.pending.get? k = none) := by
  rcases s.inject_cases id stepId content with ⟨named, call, rfl, hheld, h⟩ | ⟨-, h⟩
  · have hget : (s.without named).pending.get? k = if k = named then none else s.pending.get? k :=
      KeyMap.get?_erase _ _ k
    rw [h]
    split at hget
    · next heq => exact Or.inr ⟨by rw [heq], ⟨call, heq ▸ hheld⟩, hget⟩
    · exact Or.inl hget
  · rw [h]
    exact Or.inl rfl

/-- A call that asks is entered under a free id, or nothing changes. -/
theorem get?_forward (s : Session) (call : CallId) (id : RequestId) (trigger : String)
    (content : Content) (k : RequestId) :
    (s.forward call id trigger content).session.pending.get? k = s.pending.get? k ∨
      (s.pending.get? k = none ∧
        (s.forward call id trigger content).session.pending.get? k = some (.resume call)) := by
  rcases s.forward_cases call id trigger content with ⟨hnone, frame, -, h⟩ | ⟨fault, -, h⟩
  · have hget : (s.pending.entries.insert id (.resume call)).get? k =
        if k = id then some (.resume call) else s.pending.get? k := KeyMap.get?_insert _ _ _ k
    rw [h]
    split at hget
    · next heq => exact Or.inr ⟨heq ▸ hnone, hget⟩
    · exact Or.inl hget
  · rw [h]
    exact Or.inl rfl

/-- The call of the step at the target waits under the id of the run, if the answer is sent. -/
theorem get?_reachTarget (s : Session) (call : CallId) (id : RequestId) (content : Content)
    (k : RequestId) :
    (s.reachTarget call id content).session.pending.get? k =
      if k = id ∧ (s.reachTarget call id content).fault = none then some (.resume call)
      else s.pending.get? k := by
  rcases s.reachTarget_cases call id content with ⟨frame, -, h⟩ | ⟨fault, -, h⟩
  · rw [h]
    simp only [and_true]
    exact KeyMap.get?_insert _ _ _ k
  · rw [h]
    simp

/-- A step at the target of a run leaves the id of the session as it is. -/
theorem id_reachTarget (s : Session) (call : CallId) (id : RequestId) (content : Content) :
    (s.reachTarget call id content).session.id = s.id := by
  rcases s.reachTarget_cases call id content with ⟨frame, -, h⟩ | ⟨fault, -, h⟩ <;> rw [h]

/-- A message leaves the id of the session as it is. -/
theorem id_receive (s : Session) (mode : ScopeMode) (hasEngine : Bool) (e : Envelope) :
    (s.receive mode hasEngine e).session.id = s.id := by
  rw [receive]
  rcases e.type
  · exact (s.serves_handle mode hasEngine e).id_eq
  · exact (s.quiet_release e).id_eq

end Session

/-! ## Entries that stay -/

/-- **Whether a turn leaves the entries alone**, but for those under some ids. -/
def Turn.Spares (t : Turn) (s : Session) (ids : List RequestId) : Prop :=
  ∀ id held, id ∉ ids → s.pending.get? id = some held → t.session.pending.get? id = some held

namespace Turn

/-- A turn that leaves the table as it is touches no entry. -/
theorem spares_of_same {t : Turn} {s : Session}
    (h : ∀ k, t.session.pending.get? k = s.pending.get? k) (ids : List RequestId) :
    t.Spares s ids := fun k _ _ hget => (h k).trans hget

/-- A turn that changes the table under one id touches that entry only. -/
theorem spares_of_get? {t : Turn} {s : Session} {id : RequestId}
    (h : ∀ k, k ≠ id → t.session.pending.get? k = s.pending.get? k) : t.Spares s [id] :=
  fun k _ hk hget => (h k fun heq => hk (List.mem_singleton.2 heq)).trans hget

/-- Entering a request touches no entry that was there. -/
theorem Spares.of_awaiting {t : Turn} {s : Session} {id : RequestId} {ids : List RequestId}
    (h : s.pending.get? id = none) (ht : t.Spares (s.awaiting id) ids) : t.Spares s ids := by
  intro k held hk hget
  refine ht k held hk ?_
  rw [Session.get?_awaiting, if_neg, hget]
  rintro rfl
  rw [h] at hget
  cases hget

/-- One turn after another touches what either of them does. -/
theorem Spares.andThen {t : Turn} {s : Session} {first second : List RequestId}
    (h : t.Spares s first) {next : Session → Turn}
    (hnext : (next t.session).Spares t.session second) :
    (t.andThen next).Spares s (first ++ second) := by
  intro k held hk hget
  obtain ⟨hfirst, hsecond⟩ := not_or.1 fun h => hk (List.mem_append.2 h)
  have hbetween := h k held hfirst hget
  rw [Turn.andThen]
  split
  · exact hbetween
  · exact hnext k held hsecond hbetween

end Turn

namespace Session

/-- A reply touches the entry under its id. -/
theorem spares_reply (s : Session) (id : RequestId) (content : Content) :
    (s.reply id content).Spares s [id] :=
  Turn.spares_of_get? fun k hk => by rw [get?_reply, if_neg hk]

/-- A response touches the entry under its id. -/
theorem spares_release (s : Session) (response : Envelope) :
    (s.release response).Spares s [response.id] :=
  Turn.spares_of_get? fun k hk => by rw [get?_release, if_neg hk]

/-- A step at the target of a run touches the entry under the id of the run. -/
theorem spares_reachTarget (s : Session) (call : CallId) (id : RequestId) (content : Content) :
    (s.reachTarget call id content).Spares s [id] :=
  Turn.spares_of_get? fun k hk => by rw [get?_reachTarget, if_neg fun hboth => hk hboth.1]

/-- A request to the debugger touches nothing that is pending. -/
theorem spares_forward (s : Session) (call : CallId) (id : RequestId) (trigger : String)
    (content : Content) : (s.forward call id trigger content).Spares s [] := by
  intro k held _ hget
  rcases s.get?_forward call id trigger content k with hsame | ⟨hnone, -⟩
  · exact hsame.trans hget
  · rw [hnone] at hget
    cases hget

/-- An injection touches the step that it names, if it names one. -/
theorem spares_inject (s : Session) (id : RequestId) (stepId : Option RequestId)
    (content : Content) : (s.inject id stepId content).Spares s stepId.toList := by
  intro k held hk hget
  rcases s.get?_inject id stepId content k with hsame | ⟨rfl, -⟩
  · exact hsame.trans hget
  · exact absurd (List.mem_singleton_self k) hk

/-- A new run touches the step that it goes on from, and the run that it takes the place of. -/
theorem spares_runUntil (s : Session) (id stepId : RequestId) (pc : UInt64) (content : Content) :
    (s.runUntil id stepId pc content).Spares s (s.dues ++ [stepId]) := by
  rw [runUntil]
  refine Turn.Spares.andThen ?_ (spares_release _ _)
  rcases h : s.state.runUntil with _ | previous
  · exact fun _ _ _ hget => hget
  · rw [dues, h]
    exact spares_reply { s with state := { s.state with runUntil := some ⟨id, pc⟩ } } _ _

/-- **The ids of the entries that a message of the debugger is about.** -/
def named (s : Session) (e : Envelope) : List RequestId :=
  match e.type with
  | .response => [e.id]
  | .request =>
    match s.pending.get? e.id, Command.ofContent e.content with
    | none, .ok (.runUntilPc stepId _) => s.dues ++ [stepId]
    | none, .ok (.injectNewCode stepId) => stepId.toList
    | _, _ => []

/-- A request of the debugger touches the entries that it is about, and no others. -/
theorem spares_handle (s : Session) (mode : ScopeMode) (hasEngine : Bool) {request : Envelope}
    (htype : request.type = .request) :
    (s.handle mode hasEngine request).Spares s (s.named request) := by
  have h := s.handled mode hasEngine request
  generalize s.handle mode hasEngine request = turn at h ⊢
  rcases h with ⟨hsetUp, -⟩ | ⟨address, slot, h⟩ | ⟨stepId, h, hcommand⟩ |
    ⟨stepId, pc, h, hcommand⟩
  · obtain ⟨breakpoints, jumpDestinations, declarations, rfl⟩ := hsetUp
    exact Turn.spares_of_same (fun k => by rw [session_send]) _
  · exact .of_awaiting h (Turn.spares_of_same (fun _ => rfl) _)
  · rw [named, htype, h, hcommand]
    exact .of_awaiting h (spares_inject _ _ _ _)
  · rw [named, htype, h, hcommand]
    exact .of_awaiting h (spares_runUntil _ _ _ _ _)

/-- **A message of the debugger leaves all entries alone but those that it is about.** -/
theorem spares_receive (s : Session) (mode : ScopeMode) (hasEngine : Bool) (e : Envelope) :
    (s.receive mode hasEngine e).Spares s (s.named e) := by
  rw [receive]
  rcases htype : e.type
  · exact s.spares_handle mode hasEngine htype
  · rw [named, htype]
    exact s.spares_release e

end Session

end DebugBridge

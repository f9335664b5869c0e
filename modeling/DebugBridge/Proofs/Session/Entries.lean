import DebugBridge.Proofs.Session.Table

/-!
# Session/Entries — the entries of the debugger's requests

A request of the debugger that is not answered at once is entered in the table, and its entry goes
when it is answered. There is one thing besides that takes an entry away: a response is matched by
its id alone, so a debugger that responds to its own request, or that names it as the paused step to
be released, **releases** the entry (`released?`) of a request that the bridge still has to answer.

What a turn does to the entries is known from four things (`Turn.Enters`): the requests that are
entered, those that are answered at once, those that had an entry and are answered, and the id that
is released.
-/

namespace DebugBridge

/-- The answers of a turn. -/
def Turn.answered (t : Turn) : List (SessionId × RequestId) :=
  t.effects.filterMap Effect.answer?

@[simp] theorem Effect.filterMap_answer?_wakes (wakes : List Wake) :
    (wakes.map Wake.effect).filterMap answer? = [] :=
  filterMap_wakes (fun _ _ => rfl) wakes

namespace Session

/-- How many requests of the debugger have an entry under an id: one or none. -/
def awaits (s : Session) (id : RequestId) : Nat :=
  if s.pending.get? id = some .awaitingReply then 1 else 0

theorem awaits_le_one (s : Session) (id : RequestId) : s.awaits id ≤ 1 := by
  unfold awaits
  split <;> decide

theorem awaits_pos_iff {s : Session} {id : RequestId} :
    0 < s.awaits id ↔ s.pending.get? id = some .awaitingReply := by
  unfold awaits
  split <;> simp [*]

theorem awaits_of_none {s : Session} {id : RequestId} (h : s.pending.get? id = none) :
    s.awaits id = 0 := by
  rw [awaits, h]
  rfl

theorem awaits_of_resume {s : Session} {id : RequestId} {call : CallId}
    (h : s.pending.get? id = some (.resume call)) : s.awaits id = 0 := by
  rw [awaits, h]
  rfl

/-- Only what is pending matters. -/
theorem awaits_congr {s t : Session} {id : RequestId}
    (h : t.pending.get? id = s.pending.get? id) : t.awaits id = s.awaits id := by
  rw [awaits, awaits, h]

/-- An entry that goes, or is now one of a call. -/
theorem awaits_of_gone {s t : Session} {id : RequestId} (hid : ∀ k, k = id → t.awaits k = 0)
    (h : ∀ k, k ≠ id → t.pending.get? k = s.pending.get? k) (k : RequestId) :
    t.awaits k = if k = id then 0 else s.awaits k := by
  split
  · next heq => exact hid k heq
  · next hne => exact awaits_congr (h k hne)

/-- A request that is entered. -/
theorem awaits_awaiting {s : Session} {id : RequestId} (h : s.pending.get? id = none)
    (k : RequestId) : (s.awaiting id).awaits k = s.awaits k + [id].count k := by
  have hk := s.get?_awaiting id k
  rw [List.count_singleton]
  split at hk
  · next heq =>
    subst heq
    rw [awaits_of_none h, awaits, hk]
    simp
  · next hne =>
    rw [awaits_congr hk]
    simp [Ne.symm hne]

/-- The id whose entry a message of the debugger releases: the one that it responds to, or the
paused step that a new run is to go on from. -/
def released? (s : Session) (e : Envelope) : Option RequestId :=
  match e.type with
  | .response => some e.id
  | .request =>
    match s.pending.get? e.id, Command.ofContent e.content with
    | none, .ok (.runUntilPc stepId _) => some stepId
    | _, _ => none

end Session

/-- **What a turn does to the entries of the debugger's requests**: some requests are entered, some
are answered at once, some lose their entries as they are answered, and an id is released. -/
structure Turn.Enters (t : Turn) (s : Session) (entered atOnce closed : List RequestId)
    (released? : Option RequestId) : Prop where
  id_eq : t.session.id = s.id
  answered_eq : t.answered = (atOnce ++ closed).map (Prod.mk s.id)
  awaits_eq : ∀ id, t.session.awaits id =
    if id ∈ closed ∨ id ∈ released? then 0 else s.awaits id + entered.count id

/-- A turn that serves nothing answers nothing. -/
theorem Turn.Quiet.answered_eq {t : Turn} {s : Session} (h : t.Quiet s) : t.answered = [] := by
  refine List.filterMap_eq_nil_iff.2 fun effect heffect => ?_
  have hserves := List.filterMap_eq_nil_iff.1 h.served_eq effect heffect
  rcases effect with _ | _ | _ | _
  case send => exact hserves
  all_goals rfl

namespace Session

/-! ## Operations -/

/-- A turn that answers nothing and leaves the entries as they are. -/
theorem enters_of_same {s : Session} {t : Turn} (hid : t.session.id = s.id)
    (hanswered : t.answered = []) (hawaits : ∀ id, t.session.awaits id = s.awaits id) :
    t.Enters s [] [] [] none :=
  ⟨hid, hanswered, fun id => by simpa using hawaits id⟩

/-- An answer that is sent. -/
theorem answered_send {s : Session} {id : RequestId} {content : Content}
    (hfault : (s.send (.response id content)).fault = none) :
    (s.send (.response id content)).session = s ∧
      (s.send (.response id content)).answered = [(s.id, id)] := by
  rcases s.send_cases (.response id content) with ⟨frame, hframe, h⟩ | ⟨fault, -, h⟩
  · have hanswer : Effect.answer? (.send s.id frame) = some (s.id, id) := by
      simp only [Effect.answer?, hframe]
      rfl
    rw [h]
    refine ⟨rfl, ?_⟩
    rw [Turn.answered, List.filterMap_cons, hanswer]
    rfl
  · rw [h] at hfault
    cases hfault

theorem enters_send {s : Session} {id : RequestId} {content : Content}
    (hfault : (s.send (.response id content)).fault = none) :
    (s.send (.response id content)).Enters s [] [id] [] none := by
  obtain ⟨hsession, hanswered⟩ := answered_send hfault
  exact ⟨congrArg Session.id hsession, hanswered, fun id => by simp [hsession]⟩

theorem enters_reply {s : Session} {id : RequestId} {content : Content}
    (hfault : (s.reply id content).fault = none) :
    (s.reply id content).Enters s [] [] [id] none := by
  have hget := s.get?_reply id content
  have hawaits : ∀ k, (s.reply id content).session.awaits k = if k = id then 0 else s.awaits k :=
    awaits_of_gone (fun k hk => awaits_of_none (by rw [hget, if_pos hk]))
      (fun k hk => by rw [hget, if_neg hk])
  obtain ⟨hsession, hanswered⟩ :=
    answered_send (s := { s with pending := (s.pending.drop id).1 }) hfault
  refine ⟨(congrArg Session.id hsession :), ?_, fun k => by simpa using hawaits k⟩
  rw [Turn.answered, reply]
  dsimp only
  rw [List.filterMap_append, Effect.filterMap_answer?_wakes]
  exact hanswered

/-- The entry of the run that reaches its target becomes the one of a paused step. -/
theorem enters_reachTarget {s : Session} {call : CallId} {id : RequestId} {content : Content}
    (hfault : (s.reachTarget call id content).fault = none) :
    (s.reachTarget call id content).Enters s [] [] [id] none := by
  have hget := s.get?_reachTarget call id content
  have hawaits : ∀ k, (s.reachTarget call id content).session.awaits k =
      if k = id then 0 else s.awaits k :=
    awaits_of_gone (fun k hk => awaits_of_resume (by rw [hget, if_pos ⟨hk, hfault⟩]))
      (fun k hk => by rw [hget, if_neg fun hboth => hk hboth.1])
  obtain ⟨hsession, hanswered⟩ := answered_send (Turn.fault_of_andThen hfault)
  suffices h : (s.reachTarget call id content).session.id = s.id ∧
      (s.reachTarget call id content).answered = [(s.id, id)] from
    ⟨h.1, h.2, fun k => by simpa using hawaits k⟩
  rw [reachTarget, Turn.andThen, Turn.fault_of_andThen hfault]
  refine ⟨(congrArg Session.id hsession :), ?_⟩
  rw [Turn.answered, List.filterMap_append, Effect.filterMap_answer?_wakes, List.append_nil]
  exact hanswered

theorem enters_release (s : Session) (response : Envelope) :
    (s.release response).Enters s [] [] [] (some response.id) := by
  have hquiet := s.quiet_release response
  have hget := s.get?_release response
  have hawaits : ∀ k, (s.release response).session.awaits k =
      if k = response.id then 0 else s.awaits k :=
    awaits_of_gone (fun k hk => awaits_of_none (by rw [hget, if_pos hk]))
      (fun k hk => by rw [hget, if_neg hk])
  exact ⟨hquiet.id_eq, hquiet.answered_eq, fun k => by simpa [eq_comm] using hawaits k⟩

/-- Only an entry of a call is taken out for an injection. -/
theorem enters_inject (s : Session) (id : RequestId) (stepId : Option RequestId)
    (content : Content) : (s.inject id stepId content).Enters s [] [] [] none := by
  suffices h : (s.inject id stepId content).session.id = s.id ∧
      (s.inject id stepId content).answered = [] by
    refine enters_of_same h.1 h.2 fun k => ?_
    rcases s.get?_inject id stepId content k with hsame | ⟨-, ⟨call, hget⟩, hnone⟩
    · exact awaits_congr hsame
    · rw [awaits_of_none hnone, awaits_of_resume hget]
  unfold inject
  split <;> exact ⟨rfl, rfl⟩

/-- A call of the engine has no part in it. -/
theorem enters_forward (s : Session) (call : CallId) (id : RequestId) (trigger : String)
    (content : Content) : (s.forward call id trigger content).Enters s [] [] [] none := by
  have hquiet := s.quiet_forward call id trigger content
  refine enters_of_same hquiet.id_eq hquiet.answered_eq fun k => ?_
  rcases s.get?_forward call id trigger content k with hsame | ⟨hnone, hget⟩
  · exact awaits_congr hsame
  · rw [awaits_of_none hnone, awaits_of_resume hget]

end Session

/-! ## Messages -/

/-- A turn that begins with a request of the debugger being entered. -/
theorem Turn.Enters.of_awaiting {t : Turn} {s : Session} {id : RequestId}
    {closed : List RequestId} {released? : Option RequestId} (h : s.pending.get? id = none)
    (ht : t.Enters (s.awaiting id) [] [] closed released?) :
    t.Enters s [id] [] closed released? :=
  ⟨ht.id_eq, ht.answered_eq, fun k => by
    rw [ht.awaits_eq, Session.awaits_awaiting h, List.count_nil, Nat.add_zero]⟩

/-- Answering first, and releasing then. -/
theorem Turn.Enters.andThen {t : Turn} {s : Session} {closed : List RequestId}
    (h : t.Enters s [] [] closed none) (hfault : t.fault = none) {next : Session → Turn}
    {id : RequestId} (hnext : (next t.session).Enters t.session [] [] [] (some id)) :
    (t.andThen next).Enters s [] [] closed (some id) := by
  rw [Turn.andThen, hfault]
  refine ⟨hnext.id_eq.trans h.id_eq, ?_, fun k => ?_⟩
  · rw [Turn.answered, List.filterMap_append, ← Turn.answered, ← Turn.answered, h.answered_eq,
      hnext.answered_eq]
    exact List.append_nil _
  · show (next t.session).session.awaits k = _
    rw [hnext.awaits_eq, h.awaits_eq]
    by_cases hk : k ∈ closed <;> by_cases hid : k ∈ some id <;> simp_all

namespace Session

/-- A new run answers the one that is under way. -/
theorem enters_runUntil {s : Session} {id stepId : RequestId} {pc : UInt64} {content : Content}
    (hfault : (s.runUntil id stepId pc content).fault = none) :
    (s.runUntil id stepId pc content).Enters s [] [] s.dues (some stepId) := by
  let started : Session := { s with state := { s.state with runUntil := some ⟨id, pc⟩ } }
  rw [runUntil] at hfault ⊢
  have hanswered := Turn.fault_of_andThen hfault
  refine Turn.Enters.andThen ?_ hanswered (enters_release _ (.response stepId content))
  rcases h : s.state.runUntil with _ | previous
  · rw [dues, h]
    exact enters_of_same rfl rfl fun _ => rfl
  · rw [h] at hanswered
    rw [dues, h]
    obtain ⟨hid, hanswered, hawaits⟩ := enters_reply (s := started) hanswered
    exact ⟨hid, hanswered, hawaits⟩

theorem of_released? {s : Session} {e : Envelope} (htype : e.type = .request) {stepId : RequestId}
    (h : s.released? e = some stepId) :
    s.pending.get? e.id = none ∧ ∃ pc, Command.ofContent e.content = .ok (.runUntilPc stepId pc) := by
  rw [released?, htype] at h
  dsimp only at h
  split at h
  · next pc hget hcommand => exact ⟨hget, pc, Option.some.inj h ▸ hcommand⟩
  · cases h

theorem released?_of_runUntilPc {s : Session} {e : Envelope} (htype : e.type = .request)
    (h : s.pending.get? e.id = none) {stepId : RequestId} {pc : UInt64}
    (hcommand : Command.ofContent e.content = .ok (.runUntilPc stepId pc)) :
    s.released? e = some stepId := by
  rw [released?, htype, h, hcommand]

/-- **A request of the debugger** is entered, or answered at once. -/
theorem enters_handle {s : Session} {mode : ScopeMode} {hasEngine : Bool} {request : Envelope}
    (htype : request.type = .request) (hfault : (s.handle mode hasEngine request).fault = none) :
    ∃ entered atOnce closed,
      (s.handle mode hasEngine request).Enters s entered atOnce closed (s.released? request) ∧
      entered ++ atOnce = [request.id] ∧ ∀ id, s.awaits id + entered.count id ≤ 1 := by
  have hroom (h : s.pending.get? request.id = none) (id : RequestId) :
      s.awaits id + [request.id].count id ≤ 1 :=
    awaits_awaiting h id ▸ awaits_le_one _ _
  rcases hreleased : s.released? request with _ | stepId
  · have h := s.handled mode hasEngine request
    generalize s.handle mode hasEngine request = turn at h hfault ⊢
    rcases h with ⟨hsetUp, -⟩ | ⟨address, slot, h⟩ | ⟨stepId, h⟩ | ⟨stepId, pc, h, hcommand⟩
    · obtain ⟨breakpoints, jumpDestinations, declarations, rfl⟩ := hsetUp
      obtain ⟨hid, hanswered, hawaits⟩ := enters_send hfault
      exact ⟨[], [request.id], [], ⟨hid, hanswered, hawaits⟩, rfl, s.awaits_le_one⟩
    · exact ⟨[request.id], [], [], .of_awaiting h (enters_of_same rfl rfl fun _ => rfl), rfl,
        hroom h⟩
    · exact ⟨[request.id], [], [], .of_awaiting h (enters_inject _ _ _ _), rfl, hroom h⟩
    · rw [released?_of_runUntilPc htype h hcommand] at hreleased
      cases hreleased
  · obtain ⟨h, pc, hcommand⟩ := of_released? htype hreleased
    rw [handle_runUntilPc h hcommand] at hfault ⊢
    exact ⟨[request.id], [], _, .of_awaiting h (enters_runUntil hfault), rfl, hroom h⟩

end Session

end DebugBridge

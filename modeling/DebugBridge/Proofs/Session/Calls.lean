import DebugBridge.Proofs.Bridge.World
import DebugBridge.Proofs.Session.Handling

/-!
# Session/Calls — where calls wait, and how they leave

A call that waits in a table leaves it in one of two ways: its wait ends, or it is handed to the
engine with an injection. A `Departure` is a call that leaves, and what an operation does to the
calls is known from the calls that it parks and those that depart (`Tracks`): the table balances,
and whatever returns or is handed over is a departure. Every operation of a session is described in
this way, so that what holds of all calls is read off the departures.
-/

namespace DebugBridge

/-- A call that leaves the table. -/
structure Departure where
  /-- The id under which it has waited. -/
  id : RequestId
  call : CallId
  /-- How its wait ends. It goes on when the call is handed to the engine. -/
  ending? : Option Ending

namespace Departure

def place (d : Departure) : RequestId × CallId :=
  (d.id, d.call)

/-- The return of a call whose wait ends. -/
def return? (d : Departure) : Option (CallId × Outcome) :=
  d.ending?.map fun ending => (d.call, ending.outcome)

/-- The call that is handed to the engine. -/
def handed? (d : Departure) : Option CallId :=
  if d.ending?.isNone then some d.call else none

end Departure

/-- **What becomes of the calls that wait**, when some are parked, some depart and some return
without having waited. -/
structure Tracks (before after : List (RequestId × CallId)) (effects : List Effect)
    (parked : List (RequestId × CallId)) (gone : List Departure)
    (atOnce : List (CallId × Outcome)) : Prop where
  table : (before ++ parked).Perm (after ++ gone.map (·.place))
  returns : (effects.filterMap Effect.return?).Perm (gone.filterMap (·.return?) ++ atOnce)
  hands : effects.filterMap Effect.handed? = gone.filterMap (·.handed?)
  /-- The engine can resume whatever it is handed. -/
  named : ∀ injection ∈ effects.filterMap Effect.injection?, injection.paused.isSome →
    injection.stepId.isSome

namespace Effect

@[simp] theorem filterMap_return?_wakes (wakes : List Wake) :
    (wakes.map Wake.effect).filterMap return? =
      wakes.map fun wake => (wake.call, wake.ending.outcome) := by
  rw [List.filterMap_map]
  exact congrFun
    (List.filterMap_eq_map (f := fun wake : Wake => (wake.call, wake.ending.outcome))) wakes

@[simp] theorem filterMap_injection?_wakes (wakes : List Wake) :
    (wakes.map Wake.effect).filterMap injection? = [] :=
  filterMap_wakes (fun _ _ => rfl) wakes

@[simp] theorem filterMap_handed?_wakes (wakes : List Wake) :
    (wakes.map Wake.effect).filterMap handed? = [] :=
  filterMap_wakes (fun _ _ => rfl) wakes

end Effect

namespace Tracks

variable {a b c : List (RequestId × CallId)} {parked parked' : List (RequestId × CallId)}
  {gone gone' : List Departure} {atOnce atOnce' : List (CallId × Outcome)}

/-- Effects that concern no call. -/
theorem of_quiet {effects : List Effect} (h : a.Perm b)
    (hreturns : effects.filterMap Effect.return? = [])
    (hhands : effects.filterMap Effect.injection? = []) : Tracks a b effects [] [] [] where
  table := by simpa using h
  returns := by rw [hreturns]; exact .refl _
  hands := by
    have hnone : ∀ effect ∈ effects, effect.handed? = none := by
      intro effect hmem
      have hinjection := List.filterMap_eq_nil_iff.1 hhands effect hmem
      rcases effect with _ | _ | _ | injection
      case inject => cases hinjection
      all_goals rfl
    exact List.filterMap_eq_nil_iff.2 hnone
  named := by rw [hhands]; simp

theorem refl (a : List (RequestId × CallId)) : Tracks a a [] [] [] [] :=
  of_quiet (.refl a) rfl rfl

/-- One operation after the other. -/
theorem trans {first second : List Effect} (h : Tracks a b first parked gone atOnce)
    (h' : Tracks b c second parked' gone' atOnce') :
    Tracks a c (first ++ second) (parked ++ parked') (gone ++ gone') (atOnce ++ atOnce') where
  table := by
    refine List.perm_iff_count.2 fun place => ?_
    have hfirst := h.table.count_eq place
    have hsecond := h'.table.count_eq place
    simp only [List.count_append, List.map_append] at hfirst hsecond ⊢
    omega
  returns := by
    refine List.perm_iff_count.2 fun returned => ?_
    have hfirst := h.returns.count_eq returned
    have hsecond := h'.returns.count_eq returned
    simp only [List.filterMap_append, List.count_append] at hfirst hsecond ⊢
    omega
  hands := by rw [List.filterMap_append, List.filterMap_append, h.hands, h'.hands]
  named := by
    rw [List.filterMap_append]
    intro injection hmem
    rcases List.mem_append.1 hmem with hmem | hmem
    · exact h.named injection hmem
    · exact h'.named injection hmem

/-- Where nothing is parked, whatever waits has waited before. -/
theorem mem_before {effects : List Effect} (h : Tracks a b effects [] gone atOnce)
    {place : RequestId × CallId} (hplace : place ∈ b) : place ∈ a := by
  have hmem := h.table.mem_iff.2 (List.mem_append_left _ hplace)
  rwa [List.append_nil] at hmem

/-- Only the calls of the table matter, in whatever order. -/
theorem congr {a' b' : List (RequestId × CallId)} {effects : List Effect}
    (h : Tracks a b effects parked gone atOnce) (ha : a'.Perm a) (hb : b.Perm b') :
    Tracks a' b' effects parked gone atOnce :=
  { h with table := ((ha.append_right _).trans h.table).trans (hb.append_right _) }

end Tracks

/-- The id of the run under way, if a message of the debugger begins another one. -/
def Session.superseded? (s : Session) (e : Envelope) : Option RequestId :=
  match e.type, s.pending.get? e.id, Command.ofContent e.content with
  | .request, none, .ok (.runUntilPc _ _) => s.state.runUntil.map (·.id)
  | _, _, _ => none

/-- **Whether a message of the debugger can make a call depart.** A call is resumed by a response to
the id under which it waits, or handed to the engine; it is let go only if it waits under the id of
an earlier request that the message has answered. -/
def Departure.Fits (d : Departure) (s : Session) (answered? : Option RequestId) (t : Turn) : Prop :=
  d.place ∈ s.pending.calls ∧
    match d.ending? with
    | none => t.fault = none
    | some (.resumed response) => response.id = d.id ∧ t.fault = none
    | some (.failed _) => False
    | some .released => answered? = some d.id

/-- What a turn does to the calls of the session in which it starts. -/
abbrev Turn.Tracks (t : Turn) (s : Session) (parked : List (RequestId × CallId))
    (gone : List Departure) : Prop :=
  DebugBridge.Tracks s.pending.calls t.session.pending.calls t.effects parked gone []

namespace Session

/-- The departure of the call under an id, if one waits there. -/
def departure (s : Session) (id : RequestId) (ending? : Option Ending) : List Departure :=
  ((s.pending.get? id).bind (·.call?)).toList.map fun call => ⟨id, call, ending?⟩

theorem mem_departure {s : Session} {id : RequestId} {ending? : Option Ending} {d : Departure} :
    d ∈ s.departure id ending? ↔
      s.pending.get? id = some (.resume d.call) ∧ d.id = id ∧ d.ending? = ending? := by
  unfold departure
  rcases s.pending.get? id with _ | call | _
  · simp
  · obtain ⟨did, dcall, dending⟩ := d
    simp [Continuation.call?]
    grind
  · simp [Continuation.call?]

/-- Whatever departs has waited. -/
theorem mem_calls_of_departure {s : Session} {id : RequestId} {ending? : Option Ending}
    {d : Departure} (h : d ∈ s.departure id ending?) : d.place ∈ s.pending.calls := by
  obtain ⟨hget, rfl, -⟩ := mem_departure.1 h
  exact Pending.mem_calls.2 hget

theorem departure_eq_nil {s : Session} {id : RequestId}
    (h : ∀ call, s.pending.get? id ≠ some (.resume call)) (ending? : Option Ending) :
    s.departure id ending? = [] :=
  List.eq_nil_iff_forall_not_mem.2 fun d hd => h d.call (mem_departure.1 hd).1

/-! ## One entry -/

/-- An entry comes to an end. -/
theorem tracks_settle {s : Session} {id : RequestId} {held : Continuation}
    (h : s.pending.get? id = some held) (ending : Ending) :
    Tracks s.pending.calls (s.without id).pending.calls ((held.settle ending).map Wake.effect) []
      (s.departure id (some ending)) [] := by
  have htable := Pending.calls_erase h
  rw [departure, h]
  rcases held with call | _
  · refine ⟨?_, .refl _, rfl, by simp [Continuation.settle, Wake.effect, Effect.injection?]⟩
    rw [List.append_nil]
    exact htable.trans List.perm_append_comm
  · refine ⟨?_, .refl _, rfl, by simp [Continuation.settle]⟩
    rw [List.append_nil]
    exact htable.trans List.perm_append_comm

/-- The entry of a request of the debugger is no entry of a call. -/
theorem calls_awaiting {s : Session} {id : RequestId} (h : s.pending.get? id = none) :
    (s.awaiting id).pending.calls.Perm s.pending.calls :=
  Pending.calls_insert h .awaitingReply

theorem departure_awaiting {s : Session} {id : RequestId} (h : s.pending.get? id = none)
    (k : RequestId) (ending? : Option Ending) :
    (s.awaiting id).departure k ending? = s.departure k ending? := by
  rw [departure, departure, awaiting, Pending.get?_mk, KeyMap.get?_insert]
  split
  · next heq =>
    subst heq
    rw [h]
    rfl
  · rfl

/-! ## Operations -/

theorem tracks_idle (s : Session) : s.idle.Tracks s [] [] :=
  .refl _

theorem tracks_send (s : Session) (e : Envelope) : (s.send e).Tracks s [] [] := by
  rcases s.send_cases e with ⟨frame, -, h⟩ | ⟨fault, -, h⟩
  · exact h ▸ .of_quiet (.refl _) rfl rfl
  · exact h ▸ .refl _

/-- Answering lets go of the call under the id of the answer. -/
theorem tracks_reply (s : Session) (id : RequestId) (content : Content) :
    (s.reply id content).Tracks s [] (s.departure id (some .released)) := by
  rcases h : s.pending.get? id with _ | held
  · rw [reply_of_none h, departure_eq_nil (by simp [h])]
    exact s.tracks_send _
  · rw [reply_of_some h]
    have htracks := (tracks_settle h .released).trans
      ((s.without id).tracks_send (.response id content))
    simp only [List.append_nil] at htracks
    exact htracks

/-- Answering hands no call to the engine. -/
theorem filterMap_handed?_reply (s : Session) (id : RequestId) (content : Content) :
    (s.reply id content).effects.filterMap Effect.handed? = [] := by
  rw [(s.tracks_reply id content).hands, List.filterMap_eq_nil_iff]
  intro d hd
  rw [Departure.handed?, (mem_departure.1 hd).2.2]
  rfl

theorem tracks_release (s : Session) (response : Envelope) :
    (s.release response).Tracks s [] (s.departure response.id (some (.resumed response))) := by
  rcases h : s.pending.get? response.id with _ | held
  · rw [release_of_none h, departure_eq_nil (by simp [h])]
    exact s.tracks_idle
  · rw [release_of_some h]
    exact tracks_settle h (.resumed response)

/-- The engine is handed the call under the id that an injection names. -/
theorem tracks_inject (s : Session) (id : RequestId) (stepId : Option RequestId)
    (content : Content) :
    (s.inject id stepId content).Tracks s [] (stepId.toList.flatMap (s.departure · none)) := by
  rcases s.inject_cases id stepId content with ⟨k, call, rfl, hget, h⟩ | ⟨hnone, h⟩
  · have hgone : (some k).toList.flatMap (s.departure · none) = [⟨k, call, none⟩] := by
      simp [departure, hget, Continuation.call?]
    rw [h, hgone]
    refine ⟨?_, .refl _, rfl, by simp [Effect.injection?]⟩
    rw [List.append_nil]
    exact (Pending.calls_erase hget).trans List.perm_append_comm
  · have hgone : stepId.toList.flatMap (s.departure · none) = [] :=
      List.flatMap_eq_nil_iff.2 fun k hk => departure_eq_nil (hnone k (Option.mem_toList.1 hk)) none
    rw [h, hgone]
    exact ⟨.refl _, .refl _, rfl, by simp [Effect.injection?]⟩

/-- A call is parked under the id of its request, unless the request cannot be sent. -/
theorem tracks_forward (s : Session) (call : CallId) (id : RequestId) (trigger : String)
    (content : Content) :
    ((s.forward call id trigger content).fault = none ∧
        (s.forward call id trigger content).Tracks s [(id, call)] []) ∨
      ∃ fault, (s.forward call id trigger content).fault = some fault ∧
        (fault.OfSending ∨ fault = .duplicateRequest id) ∧
        (s.forward call id trigger content).Tracks s [] [] := by
  rcases s.forward_cases call id trigger content with ⟨hnone, frame, -, h⟩ | ⟨fault, hfault, h⟩
  · rw [h]
    refine Or.inl ⟨rfl, ?_, .refl _, rfl, by simp [Effect.injection?]⟩
    rw [List.map_nil, List.append_nil]
    exact List.perm_append_comm.trans (Pending.calls_insert hnone (.resume call)).symm
  · rw [h]
    exact Or.inr ⟨fault, rfl, hfault, .refl _⟩

/-- The call of the step at the target is parked under the id of the request to run there, whoever
was there before, unless the answer cannot be sent. -/
theorem tracks_reachTarget (s : Session) (call : CallId) (id : RequestId) (content : Content) :
    ((s.reachTarget call id content).fault = none ∧
        (s.reachTarget call id content).Tracks s [(id, call)] (s.departure id (some .released))) ∨
      ∃ fault, (s.reachTarget call id content).fault = some fault ∧ fault.OfSending ∧
        (s.reachTarget call id content).Tracks s [] [] := by
  rcases s.reachTarget_cases call id content with ⟨frame, -, h⟩ | ⟨fault, hfault, h⟩
  · rw [h]
    refine Or.inl ⟨rfl, ?_⟩
    have htable := (Pending.calls_reassign s.pending id (.resume call)).symm
    have htracks : Tracks s.pending.calls
        (⟨s.pending.entries.insert id (.resume call)⟩ : Pending).calls
        ((s.pending.get? id).toList.flatMap (·.settle .released) |>.map Wake.effect)
        [(id, call)] (s.departure id (some .released)) [] := by
      refine ⟨List.perm_append_comm.trans (htable.trans (List.Perm.of_eq ?_)), ?_, ?_,
        by rw [Effect.filterMap_injection?_wakes]; simp⟩
      all_goals
        unfold departure
        rcases s.pending.get? id with _ | previous | _
        all_goals simp [Continuation.call?, Continuation.settle, Departure.place, Wake.effect,
          Effect.return?, Effect.handed?, Departure.return?, Departure.handed?]
    have hsent : Tracks s.pending.calls s.pending.calls [.send s.id frame] [] [] [] :=
      .of_quiet (.refl _) rfl rfl
    exact hsent.trans htracks
  · rw [h]
    exact Or.inr ⟨fault, rfl, hfault, .refl _⟩

/-! ## Messages -/

/-- A new run lets go of the call under the id of the one that is under way, and resumes the step
that it names. -/
theorem tracks_runUntil (s : Session) (id stepId : RequestId) (pc : UInt64) (content : Content) :
    ∃ gone, (s.runUntil id stepId pc content).Tracks s [] gone ∧
      (∀ d ∈ gone, d.Fits s (s.state.runUntil.map (·.id)) (s.runUntil id stepId pc content)) ∧
      ∀ previous ∈ s.state.runUntil, s.departure previous.id (some .released) ⊆ gone := by
  let started : Session := { s with state := { s.state with runUntil := some ⟨id, pc⟩ } }
  rcases hprevious : s.state.runUntil with _ | previous
  · rw [runUntil, hprevious]
    refine ⟨_, started.tracks_release (.response stepId content), fun d hd => ?_, by simp⟩
    obtain ⟨-, hid, hending⟩ := mem_departure.1 hd
    refine ⟨mem_calls_of_departure hd, ?_⟩
    rw [hending]
    exact ⟨hid.symm, started.fault_release (.response stepId content)⟩
  · rw [runUntil, hprevious]
    have hreply := started.tracks_reply previous.id (Reply.error Reply.superseded)
    have hreplied : ∀ d ∈ started.departure previous.id (some .released), ∀ t,
        d.Fits s (some previous.id) t := by
      intro d hd t
      obtain ⟨-, hid, hending⟩ := mem_departure.1 hd
      refine ⟨mem_calls_of_departure hd, ?_⟩
      rw [hending]
      exact congrArg some hid.symm
    dsimp only
    generalize started.reply previous.id (Reply.error Reply.superseded) = turn at hreply ⊢
    rw [Turn.andThen]
    rcases hfault : turn.fault with _ | fault
    · refine ⟨_, hreply.trans (turn.session.tracks_release (.response stepId content)),
        fun d hd => ?_, ?_⟩
      · rcases List.mem_append.1 hd with hd | hd
        · exact hreplied d hd _
        · obtain ⟨-, hid, hending⟩ := mem_departure.1 hd
          refine ⟨hreply.mem_before (mem_calls_of_departure hd), ?_⟩
          rw [hending]
          exact ⟨hid.symm, turn.session.fault_release (.response stepId content)⟩
      · rintro _ ⟨⟩
        exact List.subset_append_left _ _
    · refine ⟨_, hreply, fun d hd => hreplied d hd _, ?_⟩
      rintro _ ⟨⟩
      exact List.Subset.refl _

theorem superseded?_of_runUntilPc {s : Session} {e : Envelope} (htype : e.type = .request)
    (h : s.pending.get? e.id = none) {stepId : RequestId} {pc : UInt64}
    (hcommand : Command.ofContent e.content = .ok (.runUntilPc stepId pc)) :
    s.superseded? e = s.state.runUntil.map (·.id) := by
  rw [superseded?, htype, h, hcommand]

/-- What is superseded is the run under way, by a request to run. -/
theorem of_superseded? {s : Session} {e : Envelope} {id : RequestId}
    (h : s.superseded? e = some id) :
    e.type = .request ∧ s.pending.get? e.id = none ∧
      (∃ stepId pc, Command.ofContent e.content = .ok (.runUntilPc stepId pc)) ∧
      ∃ previous ∈ s.state.runUntil, previous.id = id := by
  rw [superseded?] at h
  split at h
  · next stepId pc htype hget hcommand =>
    exact ⟨htype, hget, ⟨stepId, pc, hcommand⟩, Option.map_eq_some_iff.1 h⟩
  · cases h

/-- A request to run that is not refused. -/
theorem handle_runUntilPc {s : Session} {request : Envelope}
    (h : s.pending.get? request.id = none) {stepId : RequestId} {pc : UInt64}
    (hcommand : Command.ofContent request.content = .ok (.runUntilPc stepId pc))
    (mode : ScopeMode) (hasEngine : Bool) :
    s.handle mode hasEngine request =
      (s.awaiting request.id).runUntil request.id stepId pc request.content := by
  rw [handle, Pending.register_of_none h]
  dsimp only
  rw [hcommand]
  rfl

/-- A run that takes the place of another, after its request has been entered in the table. -/
theorem tracks_running {s : Session} {request : Envelope} (htype : request.type = .request)
    (h : s.pending.get? request.id = none) {stepId : RequestId} {pc : UInt64}
    (hcommand : Command.ofContent request.content = .ok (.runUntilPc stepId pc)) :
    let turn := (s.awaiting request.id).runUntil request.id stepId pc request.content
    ∃ gone, turn.Tracks s [] gone ∧ (∀ d ∈ gone, d.Fits s (s.superseded? request) turn) ∧
      ∀ id ∈ s.superseded? request, s.departure id (some .released) ⊆ gone := by
  obtain ⟨gone, htracks, hfits, hgone⟩ :=
    (s.awaiting request.id).tracks_runUntil request.id stepId pc request.content
  rw [superseded?_of_runUntilPc htype h hcommand]
  refine ⟨gone, htracks.congr (calls_awaiting h).symm (.refl _), fun d hd => ?_, fun id hid => ?_⟩
  · exact ⟨(calls_awaiting h).mem_iff.1 (hfits d hd).1, (hfits d hd).2⟩
  · obtain ⟨previous, hprevious, rfl⟩ := Option.map_eq_some_iff.1 hid
    rw [← departure_awaiting h]
    exact hgone previous hprevious

/-- A request of the debugger lets go of the call under the id of the run that it supersedes. -/
theorem tracks_handle (s : Session) (mode : ScopeMode) (hasEngine : Bool) {request : Envelope}
    (htype : request.type = .request) :
    ∃ gone, (s.handle mode hasEngine request).Tracks s [] gone ∧
      (∀ d ∈ gone, d.Fits s (s.superseded? request) (s.handle mode hasEngine request)) ∧
      ∀ id ∈ s.superseded? request, s.departure id (some .released) ⊆ gone := by
  rcases hsuperseded : s.superseded? request with _ | id
  · have h := s.handled mode hasEngine request
    generalize s.handle mode hasEngine request = turn at h ⊢
    rcases h with ⟨hsetUp, -⟩ | ⟨address, slot, h⟩ | ⟨stepId, h⟩ | ⟨stepId, pc, h, hcommand⟩
    · obtain ⟨breakpoints, jumpDestinations, declarations, rfl⟩ := hsetUp
      exact ⟨[], (tracks_send _ _).congr (.refl _) (.refl _), by simp, by simp⟩
    · exact ⟨[], .of_quiet (calls_awaiting h).symm rfl rfl, by simp, by simp⟩
    · refine ⟨_, (tracks_inject _ _ _ _).congr (calls_awaiting h).symm (.refl _), fun d hd => ?_,
        by simp⟩
      obtain ⟨k, -, hd⟩ := List.mem_flatMap.1 hd
      rw [departure_awaiting h] at hd
      refine ⟨mem_calls_of_departure hd, ?_⟩
      rw [(mem_departure.1 hd).2.2]
      exact fault_inject _ _ _ _
    · exact hsuperseded ▸ tracks_running htype h hcommand
  · obtain ⟨-, h, ⟨stepId, pc, hcommand⟩, -⟩ := of_superseded? hsuperseded
    rw [handle_runUntilPc h hcommand]
    exact hsuperseded ▸ tracks_running htype h hcommand

/-- **What a message of the debugger does to the calls.** -/
theorem tracks_receive (s : Session) (mode : ScopeMode) (hasEngine : Bool) (e : Envelope) :
    ∃ gone, (s.receive mode hasEngine e).Tracks s [] gone ∧
      (∀ d ∈ gone, d.Fits s (s.superseded? e) (s.receive mode hasEngine e)) ∧
      ∀ id ∈ s.superseded? e, s.departure id (some .released) ⊆ gone := by
  rw [receive]
  rcases htype : e.type
  · exact s.tracks_handle mode hasEngine htype
  · refine ⟨_, s.tracks_release e, fun d hd => ⟨mem_calls_of_departure hd, ?_⟩, fun id hid => ?_⟩
    · obtain ⟨-, hid, hending⟩ := mem_departure.1 hd
      rw [hending]
      exact ⟨hid.symm, s.fault_release e⟩
    · obtain ⟨hrequest, -⟩ := of_superseded? hid
      rw [htype] at hrequest
      cases hrequest

end Session

end DebugBridge

import DebugBridge.Proofs.Bridge.FailingAlone
import DebugBridge.Proofs.Bridge.Isolation
import DebugBridge.Proofs.Bridge.LateAnswers
import DebugBridge.Proofs.Bridge.Outstanding

/-!
# Bridge/Injection — a paused step goes to the engine with new code

A debugger that asks for new code can name a paused step. The call of that step then leaves the
table and goes to the engine with the injection (`HandsOver`). From there on two things take their
own courses. The request is pending like any other until it is answered, which is when the engine
has taken the injection or has refused it (`entered_run`, `Answers`). And the call returns when the
engine resumes the injection or lets go of it, and not before, whatever becomes of the session
(`returned_iff_released`). It cannot be lost, since the engine keeps the injection until it is done
with it (`kept_run`), and it cannot return in another way, since every call is in one place.
-/

namespace DebugBridge

/-! ## The table -/

namespace Session

/-- The call that goes to the engine with an injection: the one that waits under the named id. -/
def taken? (s : Session) (stepId : Option RequestId) : Option CallId :=
  stepId.bind fun id => (s.pending.get? id).bind (·.call?)

/-- The session without the entry of the call that goes along. -/
def relieved (s : Session) (stepId : Option RequestId) : Session :=
  if (s.taken? stepId).isSome then stepId.elim s s.without else s

theorem taken?_eq_some_iff {s : Session} {stepId : Option RequestId} {call : CallId} :
    s.taken? stepId = some call ↔
      ∃ id, stepId = some id ∧ s.pending.get? id = some (.resume call) := by
  rw [taken?, Option.bind_eq_some_iff]
  refine exists_congr fun id => and_congr_right fun _ => ?_
  rcases s.pending.get? id with _ | waiting | _ <;> simp [Continuation.call?]

/-- **What handing over comes to.** -/
theorem inject_eq (s : Session) (id : RequestId) (stepId : Option RequestId) (content : Content) :
    s.inject id stepId content =
      ⟨s.relieved stepId, [.inject ⟨s.id, id, stepId, content, s.taken? stepId⟩], none⟩ := by
  rcases s.inject_cases id stepId content with ⟨k, call, rfl, hget, h⟩ | ⟨hnone, h⟩
  · have htaken : s.taken? (some k) = some call := taken?_eq_some_iff.2 ⟨k, rfl, hget⟩
    rw [h, relieved, htaken]
    rfl
  · have htaken : s.taken? stepId = none := by
      refine Option.eq_none_iff_forall_ne_some.2 fun call hcall => ?_
      obtain ⟨k, hk, hget⟩ := taken?_eq_some_iff.1 hcall
      exact hnone k hk call hget
    rw [h, relieved, htaken]
    rfl

/-- **Exactly the entry of the call that goes along leaves the table.** -/
theorem get?_relieved (s : Session) (stepId : Option RequestId) (k : RequestId) :
    (s.relieved stepId).pending.get? k =
      if (s.taken? stepId).isSome ∧ stepId = some k then none else s.pending.get? k := by
  rw [relieved]
  split
  · next htaken =>
    rcases stepId with _ | named
    · simp
    · have hsame : k = named ↔ (s.taken? (some named)).isSome ∧ some named = some k :=
        ⟨fun h => ⟨htaken, congrArg some h.symm⟩, fun h => (Option.some.inj h.2).symm⟩
      exact (KeyMap.get?_erase _ _ k).trans (if_congr hsame rfl rfl)
  · next htaken => rw [if_neg fun h => htaken h.1]

/-- Nothing but the table changes. -/
theorem relieved_eq (s : Session) (stepId : Option RequestId) :
    s.relieved stepId = { s with pending := (s.relieved stepId).pending } := by
  rw [relieved]
  split
  · rcases stepId with _ | k <;> rfl
  · rfl

/-- The request itself is no paused step. -/
theorem taken?_awaiting {s : Session} {id : RequestId} (hid : s.pending.get? id = none)
    (stepId : Option RequestId) : (s.awaiting id).taken? stepId = s.taken? stepId := by
  refine congrArg stepId.bind (funext fun k => ?_)
  rw [get?_awaiting]
  split
  · next heq =>
    rw [heq, hid]
    rfl
  · rfl

end Session

/-! ## Whoever keeps an injection -/

namespace World

section

variable {w : World} {injection : CodeInjection} {id : RequestId} {call : CallId}

/-- A call that the engine keeps has not returned. -/
theorem InPlace.not_returned_of_kept (h : w.InPlace) (kept : injection ∈ w.kept)
    (paused : injection.paused = some call) : call ∉ w.returned.map (·.1) := by
  have hkeeping : call ∈ w.keeping := List.mem_filterMap.2 ⟨injection, kept, paused⟩
  obtain ⟨-, -, hapart⟩ := List.nodup_append.1 h.nodup
  exact fun hreturned => hapart call (List.mem_append_right _ hkeeping) call hreturned rfl

/-- A call that has returned does not return again. -/
theorem InPlace.returns_once {m : Move} (h : (w.step m).InPlace)
    (returned : call ∈ w.returned.map (·.1)) :
    call ∉ ((w.respond m).2.filterMap Effect.return?).map (·.1) := by
  obtain ⟨-, hreturned, -⟩ := List.nodup_append.1 h.nodup
  rw [returned_step, List.map_append] at hreturned
  obtain ⟨-, -, hapart⟩ := List.nodup_append.1 hreturned
  exact fun hagain => hapart call returned call hagain rfl

/-- The engine keeps a call with one injection only. -/
theorem InPlace.eq_of_paused (h : w.InPlace) {other : CodeInjection} (kept : injection ∈ w.kept)
    (kept' : other ∈ w.kept) (paused : injection.paused = some call)
    (paused' : other.paused = some call) : injection = other := by
  obtain ⟨hplaces, -, -⟩ := List.nodup_append.1 h.nodup
  obtain ⟨-, hkeeping, -⟩ := List.nodup_append.1 hplaces
  obtain ⟨i, hi⟩ := List.mem_iff_getElem?.1 kept
  obtain ⟨j, hj⟩ := List.mem_iff_getElem?.1 kept'
  obtain rfl := index_eq_of_nodup hkeeping hi hj paused paused'
  exact Option.some.inj (hi.symm.trans hj)

theorem kept_step_of_ne {m : Move} (kept : injection ∈ w.kept) (h : m.release? ≠ some injection) :
    injection ∈ (w.step m).kept := by
  rw [kept_step]
  refine List.mem_append_left _ ?_
  rcases hrelease : m.release? with _ | other
  · exact kept
  · have hne : injection ≠ other := fun heq => h (heq ▸ hrelease)
    exact (List.mem_erase_of_ne hne).2 kept

/-- **The engine keeps an injection until it is done with it.** -/
theorem kept_run {moves : List Move} (kept : injection ∈ w.kept)
    (hresume : .resume injection ∉ moves) (hletGo : .letGo injection ∉ moves) :
    injection ∈ (w.run moves).kept := by
  induction moves generalizing w with
  | nil => exact kept
  | cons m rest ih =>
    have hne : m.release? ≠ some injection := by
      rcases m with _ | _ | _ | _ <;> rintro ⟨⟩
      · exact hresume List.mem_cons_self
      · exact hletGo List.mem_cons_self
    exact ih (kept_step_of_ne kept hne) (fun h => hresume (List.mem_cons_of_mem m h))
      fun h => hletGo (List.mem_cons_of_mem m h)

theorem returned_of_mem {moves : List Move} {m : Move} {outcome : Outcome} (hm : m ∈ moves)
    (returns : ∀ v : World, (v.respond m).2.filterMap Effect.return? = [(call, outcome)]) :
    (call, outcome) ∈ (w.run moves).returned := by
  obtain ⟨first, rest, rfl⟩ := List.append_of_mem hm
  refine mem_returned_run.2 (Or.inr ⟨first, m, rest, rfl, ?_⟩)
  rw [returns]
  exact List.mem_singleton_self _

variable (named : injection.stepId = some id) (paused : injection.paused = some call)

include named paused

theorem returns_of_resume (w : World) :
    (w.respond (.resume injection)).2.filterMap Effect.return? =
      [(call, .resumed (.response id .object))] := by
  rw [respond, CodeInjection.resume, CodeInjection.settle, named, paused]
  rfl

theorem returns_of_letGo (w : World) :
    (w.respond (.letGo injection)).2.filterMap Effect.return? =
      [(call, .failed .continuationDropped)] := by
  rw [respond, CodeInjection.drop, CodeInjection.settle, named, paused]
  rfl

/-- **Only the engine lets a call return that it keeps**: it resumes the injection, or lets go of
it. -/
theorem InPlace.release_of_returns (h : w.InPlace) (kept : injection ∈ w.kept) {m : Move}
    (allowed : w.Allows m) {outcome : Outcome}
    (returns : (call, outcome) ∈ (w.respond m).2.filterMap Effect.return?) :
    m = .resume injection ∧ outcome = .resumed (.response id .object) ∨
      m = .letGo injection ∧ outcome = .failed .continuationDropped := by
  have hreleased {other : CodeInjection} (hm : m.release? = some other) : other = injection := by
    obtain ⟨ending, hrespond⟩ := respond_of_release? (w := w) hm
    have hother := allowed.release other hm
    have hcalls := calls_of_settle (h.named other hother) ending
    rw [hrespond] at returns
    have hcall : call ∈ other.paused.toList := hcalls ▸ List.mem_map_of_mem (f := (·.1)) returns
    exact h.eq_of_paused hother kept (Option.mem_toList.1 hcall) paused
  rcases m with input | other | other | _
  case input =>
    have hkept : injection ∈ (w.step (.input input)).kept := List.mem_append_left _ kept
    have hreturned : call ∈ (w.step (.input input)).returned.map (·.1) := by
      rw [returned_step]
      exact List.mem_map_of_mem (f := (·.1)) (List.mem_append_right _ returns)
    exact absurd hreturned ((h.step allowed).not_returned_of_kept hkept paused)
  case resume =>
    obtain rfl := hreleased rfl
    rw [returns_of_resume named paused, List.mem_singleton] at returns
    exact Or.inl ⟨rfl, (Prod.mk.inj returns).2⟩
  case letGo =>
    obtain rfl := hreleased rfl
    rw [returns_of_letGo named paused, List.mem_singleton] at returns
    exact Or.inr ⟨rfl, (Prod.mk.inj returns).2⟩
  case cancel => cases returns

/-- **A call that the engine keeps returns as the engine decides**, and in no other way: whatever
else happens, it is resumed if the engine resumes the injection, and it is let go if the engine lets
go of the injection. -/
theorem returned_iff_released (inPlace : w.InPlace) (kept : injection ∈ w.kept) {moves : List Move}
    (legal : Legal w moves) (outcome : Outcome) :
    (call, outcome) ∈ (w.run moves).returned ↔
      .resume injection ∈ moves ∧ outcome = .resumed (.response id .object) ∨
        .letGo injection ∈ moves ∧ outcome = .failed .continuationDropped := by
  constructor
  · intro hmem
    rcases mem_returned_run.1 hmem with hbefore | ⟨first, m, rest, rfl, returns⟩
    · exact absurd (List.mem_map_of_mem hbefore) (inPlace.not_returned_of_kept kept paused)
    obtain ⟨hfirst, hallowed, -⟩ := along_append.1 legal
    have hplace : (w.run first).InPlace := hfirst.invariant InPlace.step inPlace
    have hagain : call ∈ (((w.run first).respond m).2.filterMap Effect.return?).map (·.1) :=
      List.mem_map_of_mem returns
    -- the call does not return twice, so the engine is not done with the injection before
    have hbefore {m' : Move} {outcome' : Outcome} (hreturns : ∀ v : World,
        (v.respond m').2.filterMap Effect.return? = [(call, outcome')]) : m' ∉ first := fun hm =>
      (hplace.step hallowed).returns_once (List.mem_map_of_mem (returned_of_mem hm hreturns)) hagain
    have hkept := kept_run kept (hbefore (returns_of_resume named paused))
      (hbefore (returns_of_letGo named paused))
    rcases hplace.release_of_returns named paused hkept hallowed returns with ⟨rfl, h⟩ | ⟨rfl, h⟩
    · exact Or.inl ⟨by simp, h⟩
    · exact Or.inr ⟨by simp, h⟩
  · rintro (⟨hmem, rfl⟩ | ⟨hmem, rfl⟩)
    · exact returned_of_mem hmem (returns_of_resume named paused)
    · exact returned_of_mem hmem (returns_of_letGo named paused)

end

end World

/-! ## The answer to a request -/

/-- The answer to a request for new code. -/
def CodeInjection.answer : Except String Unit → Content
  | .ok () => Reply.message Reply.codeInjected
  | .error reason => Reply.error reason

theorem CodeInjection.flat_answer (result : Except String Unit) :
    (CodeInjection.answer result).Flat := by
  rcases result with reason | _
  · exact Reply.flat_error reason
  · exact Reply.flat_message _

theorem Bridge.injected_eq (b : Bridge) (injection : CodeInjection) (result : Except String Unit) :
    b.injected injection result =
      b.answer injection.session injection.replyTo (CodeInjection.answer result) := by
  rcases result with reason | _ <;> rfl

namespace Bridge

section

variable {b : Bridge} {s : Session} (hs : b.session = some s) {replyTo : RequestId}
  (held : s.pending.get? replyTo = some .awaitingReply)

include hs held

/-- **A late answer retires its request**, and nothing else, if the link takes it. -/
theorem answer_of_accepting (accepts : s.accepting = true) {content : Content}
    (flat : content.Flat) :
    ∃ frame : Frame, frame.envelope = .response replyTo content ∧
      b.answer s.id replyTo content =
        ({ b with session := some (s.without replyTo) }, [.send s.id frame]) := by
  obtain ⟨frame, henvelope, hsend⟩ := Session.exists_send_of_accepting (s := s.without replyTo)
    accepts (e := .response replyTo content) flat
  refine ⟨frame, henvelope, ?_⟩
  rw [answer_of_some hs, Session.reply_of_some held, hsend]
  rfl

/-- If the link takes no frames, the session ends. -/
theorem answer_of_not_accepting (refuses : s.accepting = false) (content : Content) :
    b.answer s.id replyTo content = b.lose (s.without replyTo) := by
  have hfault := Session.fault_send_of_deaf (s := s.without replyTo) refuses
    (.response replyTo content)
  rw [answer_of_some hs, Session.reply_of_some held]
  rcases (s.without replyTo).send_cases (.response replyTo content) with
    ⟨frame, -, hsend⟩ | ⟨fault, -, hsend⟩
  · rw [hsend] at hfault
    cases hfault
  · rw [hsend]
    rfl

end

end Bridge

/-! ## The request -/

namespace World

/-- **Whether a move hands an injection to the engine**, for a request that the live session takes.
Nothing else comes of the move. The call that waits under the named id goes along; its entry leaves
the table, where the request now waits for its answer, and all other entries stay. -/
structure HandsOver (w : World) (m : Move) (s : Session) (e : Envelope)
    (injection : CodeInjection) : Prop where
  effects : (w.respond m).2 = [.inject injection]
  request : injection.request = (s.id, e.id)
  content : injection.content = e.content
  paused : ∀ call, injection.paused = some call ↔
    ∃ id, injection.stepId = some id ∧ s.pending.get? id = some (.resume call)
  bridge : ∃ pending, (w.respond m).1 = { w.bridge with session := some { s with pending } } ∧
    ∀ id, pending.get? id =
      if id = e.id then some .awaitingReply
      else if injection.paused.isSome ∧ injection.stepId = some id then none
      else s.pending.get? id

namespace HandsOver

variable {w : World} {m : Move} {s : Session} {e : Envelope} {injection : CodeInjection}

theorem kept (h : w.HandsOver m s e injection) : injection ∈ (w.step m).kept := by
  rw [kept_step, h.effects]
  exact List.mem_append_right _ (List.mem_singleton_self _)

theorem offered (h : w.HandsOver m s e injection) : injection ∈ (w.step m).offers := by
  show injection ∈ m.offer?.elim w.offers w.offers.erase ++ (w.respond m).2.filterMap _
  rw [h.effects]
  exact List.mem_append_right _ (List.mem_singleton_self _)

/-- The session goes on. -/
theorem session (h : w.HandsOver m s e injection) :
    ∃ t, (w.step m).bridge.session = some t ∧ t.id = s.id ∧ t.accepting = s.accepting ∧
      t.pending.get? e.id = some .awaitingReply ∧
      ∀ id, id ≠ e.id → injection.stepId ≠ some id →
        t.pending.get? id = s.pending.get? id := by
  obtain ⟨pending, hbridge, hget⟩ := h.bridge
  refine ⟨{ s with pending }, ?_, rfl, rfl, ?_, fun id hid hnamed => ?_⟩
  · rw [bridge_step, hbridge]
  · rw [hget, if_pos rfl]
  · rw [hget, if_neg hid, if_neg fun h => hnamed h.2]

end HandsOver

theorem handsOver_of_accepted? {w : World} {m : Move} {s : Session} {e : Envelope}
    {stepId : Option RequestId} (brought : w.message? m = some (s, e))
    (accepted : s.accepted? e = some (.injectNewCode stepId)) (engine : w.bridge.hasEngine = true) :
    w.HandsOver m s e ⟨s.id, e.id, stepId, e.content, s.taken? stepId⟩ := by
  obtain ⟨htype, hid, -⟩ := Session.accepted?_eq_some_iff.1 accepted
  have htaken := Session.taken?_awaiting hid stepId
  have hrespond : w.respond m =
      ({ w.bridge with session := some ((s.awaiting e.id).relieved stepId) },
        [.inject ⟨s.id, e.id, stepId, e.content, s.taken? stepId⟩]) := by
    rw [respond_of_message? brought, Session.receive, htype]
    dsimp only
    rw [Session.handle_injectNewCode accepted, if_pos engine, Session.inject_eq, htaken]
    rfl
  refine ⟨congrArg Prod.snd hrespond, rfl, rfl, fun call => Session.taken?_eq_some_iff,
    ((s.awaiting e.id).relieved stepId).pending, ?_, fun id => ?_⟩
  · rw [hrespond, Session.relieved_eq]
    rfl
  · rw [Session.get?_relieved, Session.get?_awaiting, htaken]
    by_cases heq : id = e.id
    · -- no call waits under the id of the request itself
      have hnamed : ¬((s.taken? stepId).isSome ∧ stepId = some id) := by
        rintro ⟨htook, rfl⟩
        obtain ⟨call, hcall⟩ := Option.isSome_iff_exists.1 htook
        obtain ⟨_, hcopy, hget⟩ := Session.taken?_eq_some_iff.1 hcall
        obtain rfl := Option.some.inj hcopy
        cases hid.symm.trans (heq ▸ hget)
      rw [if_neg hnamed, if_pos heq, if_pos heq]
    · rw [if_neg heq, if_neg heq]

/-- **Whether a move leaves a request open**: the debugger does not respond to it, and whatever is
answered under its id comes in with the move. -/
structure LeavesOpen (w : World) (request : SessionId × RequestId) (m : Move) : Prop where
  released : request.2 ∉ w.released? m
  answered : ((w.respond m).2.filterMap Effect.answer?).count request ≤
    (w.request? m).toList.count request

section

variable {w : World} {s t : Session} {id : RequestId} (live : w.bridge.session = some s)
  (entered : s.pending.get? id = some .awaitingReply)

include live entered

theorem entered_step {m : Move} (leaves : w.LeavesOpen (s.id, id) m)
    (goes : (w.step m).bridge.session = some t) :
    t.id = s.id ∧ t.pending.get? id = some .awaitingReply := by
  rcases w.follows_respond m t goes with ⟨-, hnone, -⟩ | ⟨s', hs', hfollows⟩
  · cases live.symm.trans hnone
  · obtain rfl := Option.some.inj (live.symm.trans hs')
    have hbefore := Session.awaits_pos_iff.2 entered
    have hkept := hfollows.kept id leaves.released
    have hanswered := leaves.answered
    exact ⟨hfollows.id_eq, Session.awaits_pos_iff.1 (by omega)⟩

/-- **A request that is left open is pending** for as long as the session lives. -/
theorem entered_run (given : s.id ≤ w.bridge.sessions) {moves : List Move}
    (along : Along (LeavesOpen · (s.id, id) ·) w moves)
    (goes : (w.run moves).bridge.session = some t) (hid : t.id = s.id) :
    t.pending.get? id = some .awaitingReply := by
  induction moves generalizing w s with
  | nil =>
    obtain rfl := Option.some.inj (live.symm.trans goes)
    exact entered
  | cons m rest ih =>
    have hgiven : s.id ≤ (w.step m).bridge.sessions := Nat.le_trans given (w.sessions_le_step m)
    rcases hsession : (w.step m).bridge.session with _ | u
    · have hover : (w.step m).Over s.id := ⟨hgiven, by rw [Bridge.session?, hsession]; rfl⟩
      cases (hover.run rest).absent.symm.trans (Bridge.session?_eq_some_iff.2 ⟨goes, hid⟩)
    · obtain ⟨hsame, hentered⟩ := entered_step live entered along.1 hsession
      exact ih hsession hentered (hsame ▸ hgiven) (hsame ▸ along.2) goes (hid.trans hsame.symm)

end

/-! ## From the request to the end of the call -/

/-- **Whether the call that goes along with an injection returns as the engine decides**: it is
resumed under its id with an empty response, or let go, and until then the engine keeps it. -/
structure Decides (w : World) (injection : CodeInjection) (later : List Move) : Prop where
  returned : ∀ id call, injection.stepId = some id → injection.paused = some call → ∀ outcome,
    (call, outcome) ∈ (w.run later).returned ↔
      .resume injection ∈ later ∧ outcome = .resumed (.response id .object) ∨
        .letGo injection ∈ later ∧ outcome = .failed .continuationDropped
  kept : .resume injection ∉ later → .letGo injection ∉ later → injection ∈ (w.run later).kept

/-- **Whether an injection is answered when the engine has taken or refused it**: one answer goes
out, which retires the entry of the request and no other. If the link takes no frames, the session
ends. -/
structure Answers (w : World) (s : Session) (id : RequestId) (injection : CodeInjection)
    (result : Except String Unit) : Prop where
  sent : s.accepting = true → ∃ frame : Frame,
    frame.envelope = .response id (CodeInjection.answer result) ∧
      w.respond (.input (.injected injection result)) =
        ({ w.bridge with session := some (s.without id) }, [.send s.id frame])
  lost : s.accepting = false →
    w.respond (.input (.injected injection result)) = w.bridge.lose (s.without id)

theorem answers_of_pending {w : World} {s : Session} {id : RequestId}
    (live : w.bridge.session = some s) (entered : s.pending.get? id = some .awaitingReply)
    {injection : CodeInjection} (request : injection.request = (s.id, id))
    (result : Except String Unit) : w.Answers s id injection result := by
  obtain ⟨hsession, rfl⟩ := Prod.mk.inj request
  have hrespond : w.respond (.input (.injected injection result)) =
      w.bridge.answer s.id injection.replyTo (CodeInjection.answer result) := by
    rw [← hsession]
    exact Bridge.injected_eq _ _ _
  constructor <;> rw [hrespond]
  · exact fun accepts =>
      Bridge.answer_of_accepting live entered accepts (CodeInjection.flat_answer _)
  · exact fun refuses => Bridge.answer_of_not_accepting live entered refuses _

/-- **New code is handed to the engine once**, with the paused step that the request names, if there
is one. The call of that step returns as the engine decides, whatever becomes of the session. All
other entries of the table stay. The request is pending until it is answered, which is when the
engine has taken the injection or has refused it. -/
theorem injection_handed_over {w : World} (reachable : w.Reachable) {m : Move} {s : Session}
    {e : Envelope} {stepId : Option RequestId} (brought : w.message? m = some (s, e))
    (accepted : s.accepted? e = some (.injectNewCode stepId)) (engine : w.bridge.hasEngine = true) :
    ∃ injection, injection.stepId = stepId ∧ w.HandsOver m s e injection ∧
      (∀ later, Legal (w.step m) later → (w.step m).Decides injection later) ∧
      ∀ later t, ((w.step m).run later).bridge.session = some t → t.id = s.id →
        (Along (LeavesOpen · (s.id, e.id) ·) (w.step m) later →
          t.pending.get? e.id = some .awaitingReply) ∧
        (t.pending.get? e.id = some .awaitingReply →
          ∀ result, ((w.step m).run later).Answers t e.id injection result) := by
  have hands := handsOver_of_accepted? brought accepted engine
  have allowed : w.Allows m := (endsNothing_of_message? brought).allows w
  refine ⟨_, rfl, hands, fun later legal => ?_, fun later t live hid => ⟨fun along => ?_,
    fun held result => ?_⟩⟩
  · have inPlace : (w.step m).InPlace := reachable.inPlace.step allowed
    exact ⟨fun id call named paused => returned_iff_released named paused inPlace hands.kept legal,
      kept_run hands.kept⟩
  · obtain ⟨u, hlive, hsame, -, entered, -⟩ := hands.session
    have inBalance := reachable.inBalance.step allowed
    exact entered_run hlive entered (inBalance.session_le u hlive) (hsame ▸ along) live
      (hid.trans hsame.symm)
  · exact answers_of_pending live held (hands.request.trans (congrArg (·, e.id) hid.symm)) result

/-! ## A call that goes along and one that stays

The engine reports two failures, and the debugger asks for new code at the first of them. -/

/-- The engine reports a failure. -/
def pause (id : RequestId) : Move :=
  .input (.report (.exception .object) id)

def pausedTwice : List Move :=
  [.input (.attach .established), .input .engine, pause "a", pause "b"]

/-- The request for new code, as it is written. -/
def newCodeBytes : List UInt8 :=
  ("[\"y\",\"request\",\"\",\x7b\"type\":\"injectNewCode\"," ++
    "\"stepId\":\"a\"\x7d]").toUTF8.toList

def newCode : Move :=
  .input (.frame 1 newCodeBytes)

/-- The engine takes an injection. -/
def takeOver (injection : CodeInjection) : Move :=
  .input (.injected injection (.ok ()))

/-- Two calls wait in a session whose link takes frames or not. -/
structure PausedTwice (w : World) (accepting : Bool) : Prop where
  session : ∃ s ∈ w.bridge.session, s.id = 1 ∧ s.accepting = accepting ∧
    s.pending.get? "a" = some (.resume 0) ∧ s.pending.get? "b" = some (.resume 1) ∧
    s.pending.get? "y" = none
  engine : w.bridge.hasEngine = true

/-- A failure waits for the debugger under its id. -/
theorem bridge_pause {w : World} {s : Session} (live : w.bridge.session = some s)
    (accepts : s.accepting = true) {id : RequestId} (fresh : s.pending.get? id = none) :
    (w.step (pause id)).bridge =
      { w.bridge with
        calls := w.bridge.calls + 1
        session := some { s with
          pending := ⟨s.pending.entries.insert id (.resume w.bridge.calls)⟩ } } := by
  obtain ⟨frame, -, hforward⟩ := Session.exists_forward_of_accepting accepts fresh
    Content.flat_object w.bridge.calls Trigger.exception
  have hjob : w.bridge.job? s (.report (.exception .object) id) =
      some (.ask id Trigger.exception .object) := rfl
  have hrespond : w.respond (pause id) = _ := Bridge.step_of_job? live hjob
  rw [bridge_step, hrespond, Bridge.carryOut, Bridge.turn, hforward]
  rfl

theorem pausedTwice_of_accepting {w : World} {s : Session} (live : w.bridge.session = some s)
    (hid : s.id = 1) (accepts : s.accepting = true)
    (fresh : ∀ id ∈ ["a", "b", "y"], s.pending.get? id = none)
    (engine : w.bridge.hasEngine = true) (calls : w.bridge.calls = 0) :
    ((w.step (pause "a")).step (pause "b")).PausedTwice true := by
  have hfirst := bridge_pause live accepts (fresh "a" (by decide))
  rw [calls] at hfirst
  have hother : Pending.get? ⟨s.pending.entries.insert "a" (.resume 0)⟩ "b" = none := by
    rw [Pending.get?_mk, KeyMap.get?_insert, if_neg (by decide)]
    exact fresh "b" (by decide)
  have hsecond := bridge_pause (w := w.step (pause "a")) (congrArg Bridge.session hfirst) accepts
    hother
  rw [hfirst] at hsecond
  refine ⟨⟨_, congrArg Bridge.session hsecond, hid, accepts, ?_, ?_, ?_⟩, ?_⟩
  · rw [Pending.get?_mk, KeyMap.get?_insert, if_neg (by decide), KeyMap.get?_insert, if_pos rfl]
  · rw [Pending.get?_mk, KeyMap.get?_insert, if_pos rfl]
  · rw [Pending.get?_mk, KeyMap.get?_insert, if_neg (by decide), KeyMap.get?_insert,
      if_neg (by decide)]
    exact fresh "y" (by decide)
  · rw [hsecond]
    exact engine

theorem run_attached :
    let w := run (.new .default) [.input (.attach .established), .input .engine]
    w.bridge.calls = 0 ∧ w.bridge.hasEngine = true ∧ ∃ s ∈ w.bridge.session, s.id = 1 ∧
      s.accepting = true ∧ ∀ id ∈ ["a", "b", "y"], s.pending.get? id = none := by decide +kernel

theorem pausedTwice_run : (run (.new .default) pausedTwice).PausedTwice true := by
  obtain ⟨calls, engine, s, live, hid, accepts, fresh⟩ := run_attached
  exact pausedTwice_of_accepting live hid accepts fresh engine calls

/-- The link closes for frames of the bridge. -/
theorem PausedTwice.deafen {w : World} {accepting : Bool} (h : w.PausedTwice accepting) :
    (w.step deafen).PausedTwice false := by
  obtain ⟨⟨s, live, hid, -, first, second, fresh⟩, engine⟩ := h
  have hdeaf : (w.step World.deafen).bridge =
      { w.bridge with session := some { s with accepting := false } } := by
    show w.bridge.linkDeaf 1 = _
    rw [Bridge.linkDeaf, Bridge.session?_eq_some_iff.2 ⟨live, hid⟩]
  refine ⟨⟨_, congrArg Bridge.session hdeaf, hid, rfl, first, second, fresh⟩, ?_⟩
  rw [hdeaf]
  exact engine

theorem message?_newCode {w : World} {s : Session} (live : w.bridge.session = some s)
    (hid : s.id = 1) (fresh : s.pending.get? "y" = none) :
    ∃ e, w.message? newCode = some (s, e) ∧ e.id = "y" ∧
      s.accepted? e = some (.injectNewCode (some "a")) := by
  have hdecode : ∃ message ∈ Input.message? (.frame 1 newCodeBytes), message.1 = 1 ∧
      message.2.type = .request ∧ message.2.id = "y" ∧
      Command.ofContent message.2.content = .ok (.injectNewCode (some "a")) := by decide +kernel
  obtain ⟨⟨_, e⟩, hmessage, rfl, htype, hy, hcommand⟩ := hdecode
  exact ⟨e, Bridge.message?_eq_some_iff.2 ⟨live, hid ▸ hmessage⟩, hy,
    Session.accepted?_eq_some_iff.2 ⟨htype, by rw [hy]; exact fresh, hcommand⟩⟩

theorem legal_pausedTwice : Legal (.new .default) pausedTwice :=
  ⟨allows_of_free rfl rfl rfl, allows_of_free rfl rfl rfl, allows_of_free rfl rfl rfl,
    allows_of_free rfl rfl rfl, trivial⟩

theorem allows_takeOver {w : World} {injection : CodeInjection} (offered : injection ∈ w.offers) :
    w.Allows (takeOver injection) where
  read := by rintro _ ⟨⟩
  offer := by
    rintro _ ⟨⟩
    exact offered
  release := by rintro _ ⟨⟩

theorem allows_resume {w : World} {injection : CodeInjection} (kept : injection ∈ w.kept) :
    w.Allows (.resume injection) where
  read := by rintro _ ⟨⟩
  offer := by rintro _ ⟨⟩
  release := by
    rintro _ ⟨⟩
    exact kept

theorem injection_handed_over_newCode :
    let w := run (.new .default) pausedTwice
    ∃ injection, (w.respond newCode).2 = [.inject injection] ∧
      Legal (.new .default) (pausedTwice ++ [newCode, .input .disconnect, .resume injection]) ∧
      (∀ outcome, (0, outcome) ∈
          ((w.step newCode).run [.input .disconnect, .resume injection]).returned ↔
        outcome = .resumed (.response "a" .object)) ∧
      ∃ frame : Frame,
        frame.envelope = .response "y" (CodeInjection.answer (.ok ())) ∧
          ((w.step newCode).respond (takeOver injection)).2 = [.send 1 frame] := by
  intro w
  obtain ⟨⟨s, live, hid, accepts, first, -, fresh⟩, engine⟩ := pausedTwice_run
  obtain ⟨e, brought, hy, accepted⟩ := message?_newCode live hid fresh
  have reachable : w.Reachable := ⟨.default, _, legal_pausedTwice, rfl⟩
  obtain ⟨injection, named, hands, decides, answered⟩ :=
    injection_handed_over reachable brought accepted engine
  have paused : injection.paused = some 0 := (hands.paused 0).2 ⟨"a", named, first⟩
  have dropped : Legal (w.step newCode) [.input .disconnect] :=
    ⟨allows_of_free rfl rfl rfl, trivial⟩
  have kept := (decides _ dropped).kept (by simp) (by simp)
  have legal : Legal (w.step newCode) [.input .disconnect, .resume injection] :=
    ⟨allows_of_free rfl rfl rfl, allows_resume kept, trivial⟩
  obtain ⟨t, hlive, hsame, haccepts, -, -⟩ := hands.session
  obtain ⟨held, answers⟩ := answered [] t hlive hsame
  obtain ⟨frame, henvelope, hrespond⟩ :=
    (answers (held trivial) (.ok ())).sent (haccepts.trans accepts)
  refine ⟨injection, hands.effects, along_append.2 ⟨legal_pausedTwice, ?_⟩, fun outcome => ?_,
    frame, hy ▸ henvelope, ?_⟩
  · exact ⟨allows_of_free rfl rfl rfl, legal⟩
  · rw [(decides _ legal).returned "a" 0 named paused outcome]
    simp
  · exact (congrArg Prod.snd hrespond).trans (by rw [hsame, hid])

/-- **An answer with which a call is lost that does not go along.** The link takes no frames when
the engine takes the injection. So the session ends with the answer, and the second call returns
because of that. -/
theorem second_call_closed_by_answer :
    let moves := pausedTwice ++ [deafen]
    let w := run (.new .default) moves
    ∃ s e injection, w.message? newCode = some (s, e) ∧
      s.accepted? e = some (.injectNewCode (some "a")) ∧ w.bridge.hasEngine = true ∧
      Legal (.new .default) (moves ++ [newCode, takeOver injection]) ∧
      w.HandsOver newCode s e injection ∧ injection.paused = some 0 ∧
      (w.step newCode).Holds (.entry "b") 1 ∧
      ((w.step newCode).respond (takeOver injection)).2.filterMap Effect.answer? = [] ∧
      (1, .failed .sessionClosed) ∈
        ((w.step newCode).respond (takeOver injection)).2.filterMap Effect.return? := by
  intro moves w
  have parked : w.PausedTwice false := by
    rw [show w = _ from run_concat _ _ _]
    exact pausedTwice_run.deafen
  have legal : Legal (.new .default) moves :=
    along_append.2 ⟨legal_pausedTwice, allows_of_free rfl rfl rfl, trivial⟩
  obtain ⟨⟨s, live, hid, accepts, first, second, fresh⟩, engine⟩ := parked
  obtain ⟨e, brought, hy, accepted⟩ := message?_newCode live hid fresh
  obtain ⟨injection, named, hands⟩ : ∃ injection : CodeInjection, injection.stepId = some "a" ∧
      w.HandsOver newCode s e injection := ⟨_, rfl, handsOver_of_accepted? brought accepted engine⟩
  have inPlace : (w.step newCode).InPlace :=
    (legal.invariant InPlace.step (inPlace_new _)).step (allows_of_free rfl rfl rfl)
  obtain ⟨t, hlive, hsame, haccepts, held, hothers⟩ := hands.session
  have holds : (w.step newCode).Holds (.entry "b") 1 := by
    refine ⟨t, hlive, ?_⟩
    rw [hothers "b" (by rw [hy]; decide) (by rw [named]; decide), second]
  have hrespond : (w.step newCode).respond (takeOver injection) =
      (w.step newCode).bridge.lose (t.without e.id) :=
    (answers_of_pending hlive held (hands.request.trans (congrArg (·, e.id) hsame.symm))
      (.ok ())).lost (haccepts.trans accepts)
  have hended : ((w.step newCode).step (takeOver injection)).bridge.session = none := by
    rw [bridge_step, hrespond]
    rfl
  have hanswered : (w.step newCode).answered? (takeOver injection) ≠ some "b" := by
    intro h
    obtain ⟨_, -, hb⟩ := Option.map_eq_some_iff.1 h
    exact absurd (hy.symm.trans ((Prod.mk.inj hands.request).2.symm.trans hb)) (by decide)
  have hreturns := (inPlace.returns_of_ended (Option.isSome_iff_exists.2 ⟨t, hlive⟩) hended holds
    (.failed .sessionClosed)).2 (if_neg hanswered).symm
  refine ⟨s, e, injection, brought, accepted, engine, along_append.2 ⟨legal, ?_⟩, hands,
    (hands.paused 0).2 ⟨"a", named, first⟩, holds, ?_, hreturns⟩
  · exact ⟨allows_of_free rfl rfl rfl, allows_takeOver hands.offered, trivial⟩
  · rw [hrespond]
    exact Bridge.filterMap_close (fun _ _ => rfl) _

end World

end DebugBridge

import DebugBridge.Proofs.Bridge.Ledger
import DebugBridge.Proofs.Session.Entries

/-!
# Bridge/Outstanding — a request without an answer is pending

The entry of a request of the debugger is there to keep its id from being used again before the
request is answered. No entry outlives its request (`Covered`). The other way round the debugger can
spoil it: it **answers its own request** if it responds to the request, or names it as the paused
step that a run is to go on from, and then the entry is gone while the request has no answer yet
(`AnswersOwn`). Nothing else does (`unanswered_pending_iff`): in a run without such a message every
request that has no answer has its entry, and another one under its id is refused.
-/

namespace DebugBridge

/-! ## Entries, requests and answers -/

/-- **The entries follow the requests and the answers** from one session to the next: a request that
comes in is entered or answered, and what is answered has no entry. Under the id that is released
there is no entry at all. -/
structure Session.Follows (s t : Session) (brought answered : List (SessionId × RequestId))
    (released? : Option RequestId) : Prop where
  id_eq : t.id = s.id
  released : ∀ id ∈ released?, t.awaits id = 0
  kept : ∀ id, id ∉ released? →
    s.awaits id + brought.count (s.id, id) ≤ t.awaits id + answered.count (s.id, id)
  covered : ∀ id, t.awaits id = 0 ∨
    t.awaits id + answered.count (s.id, id) = s.awaits id + brought.count (s.id, id)

theorem Turn.Enters.follows {t : Turn} {s : Session} {entered atOnce closed : List RequestId}
    {released? : Option RequestId} (h : t.Enters s entered atOnce closed released?)
    (hroom : ∀ id, s.awaits id + entered.count id ≤ 1) :
    s.Follows t.session ((entered ++ atOnce).map (Prod.mk s.id)) t.answered released? where
  id_eq := h.id_eq
  released := fun id hid => by rw [h.awaits_eq, if_pos (Or.inr hid)]
  kept := fun id hid => by
    rw [h.answered_eq, Bridge.count_map_mk, Bridge.count_map_mk, h.awaits_eq, List.count_append,
      List.count_append]
    by_cases hclosed : id ∈ closed
    · have hpos := List.count_pos_iff.2 hclosed
      have hone := hroom id
      rw [if_pos (Or.inl hclosed)]
      omega
    · rw [if_neg (not_or.2 ⟨hclosed, hid⟩), List.count_eq_zero.2 hclosed]
      omega
  covered := fun id => by
    rw [h.answered_eq, Bridge.count_map_mk, Bridge.count_map_mk, h.awaits_eq, List.count_append,
      List.count_append]
    split
    · exact Or.inl rfl
    · next hid =>
      rw [List.count_eq_zero.2 (not_or.1 hid).1]
      omega

namespace Bridge

/-- The same from one bridge to the next, unless the session is a new one. -/
def Follows (b : Bridge) (brought : List (SessionId × RequestId)) (released? : Option RequestId)
    (result : Bridge × List Effect) : Prop :=
  ∀ t ∈ result.1.session,
    (t.id = b.sessions + 1 ∧ b.session = none ∧ ∀ id, t.awaits id = 0) ∨
    ∃ s ∈ b.session, s.Follows t brought (result.2.filterMap Effect.answer?) released?

/-- The id whose entry an input releases. -/
def released? (b : Bridge) : Input → Option RequestId
  | .frame id bytes =>
    match Envelope.decode bytes, b.session? id with
    | .ok e, some s => s.released? e
    | _, _ => none
  | _ => none

section

variable {b c : Bridge} {s : Session} {t : Turn} {brought : List (SessionId × RequestId)}
  {released? : Option RequestId}

theorem follows_of_none {effects : List Effect} (h : c.session = none) :
    b.Follows brought released? (c, effects) := fun t ht => by
  rw [show (c, effects).1.session = none from h] at ht
  cases ht

/-- Going on with the session after a turn. -/
theorem follows_keep (h : b.session = some s)
    (ht : s.Follows t.session brought t.answered released?) :
    b.Follows brought released? (c.keep t) := by
  rintro _ ⟨⟩
  exact Or.inr ⟨s, h, ht⟩

theorem follows_settle (h : b.session = some s)
    (ht : t.fault.any (·.isTransport) = false →
      s.Follows t.session brought t.answered released?) :
    b.Follows brought released? (c.settle t) := by
  rw [settle]
  split
  · exact follows_of_none rfl
  · next hfault => exact follows_keep h (ht (by simpa using hfault))

/-- Ending the session or not, as there is a fault or not. -/
theorem follows_ite (h : b.session = some s)
    (ht : t.fault = none → s.Follows t.session brought t.answered released?) :
    b.Follows brought released? (if t.fault.isSome then c.abort t else c.keep t) := by
  split
  · exact follows_of_none rfl
  · next hfault => exact follows_keep h (ht (by simpa using hfault))

end

/-- The call that returns is of no matter. -/
theorem answered_returning (call : CallId) (t : Turn) :
    (returning call t).answered = t.answered :=
  filterMap_returning (fun _ _ => rfl) call t

theorem follows_returning {s : Session} {t : Turn} {closed : List RequestId} (call : CallId)
    (h : t.Enters s [] [] closed none) :
    s.Follows (returning call t).session [] (returning call t).answered none := by
  rw [answered_returning]
  exact h.follows s.awaits_le_one

/-- A session that keeps its table keeps its entries. -/
theorem follows_of_same {b c : Bridge} {effects : List Effect}
    (hsession : ∀ t ∈ c.session, ∃ s ∈ b.session, t.id = s.id ∧ t.pending = s.pending)
    (hanswered : effects.filterMap Effect.answer? = []) : b.Follows [] none (c, effects) := by
  intro t ht
  obtain ⟨s, hs, hid, hpending⟩ := hsession t ht
  have hsame (id : RequestId) : t.awaits id = s.awaits id :=
    Session.awaits_congr (by rw [hpending])
  refine Or.inr ⟨s, hs, hid, by simp, fun id _ => ?_, fun id => Or.inr ?_⟩ <;>
    simp [hanswered, hsame]

/-- A message of the debugger. -/
theorem follows_receive (b : Bridge) (id : SessionId) (bytes : List UInt8) :
    b.Follows (b.request? (.frame id bytes)).toList (b.released? (.frame id bytes))
      (b.receive id bytes) := by
  rw [receive, request?, released?]
  rcases Envelope.decode bytes with fault | e
  · exact follows_of_same (fun t ht => ⟨t, ht, rfl, rfl⟩) rfl
  rcases hlive : b.session? id with _ | s
  · exact follows_of_same (fun t ht => ⟨t, ht, rfl, rfl⟩) rfl
  obtain ⟨hs, rfl⟩ := session?_eq_some_iff.1 hlive
  dsimp only
  refine follows_settle hs fun hsound => ?_
  rw [Session.receive] at hsound ⊢
  rcases htype : e.type
  · rw [htype] at hsound
    dsimp only at hsound ⊢
    have hfault : (s.handle b.config.scopeMode b.hasEngine e).fault = none := by
      rcases (s.handled b.config.scopeMode b.hasEngine e).sound with hnone | hfailed
      · exact hnone
      · rw [hfailed] at hsound
        cases hsound
    obtain ⟨entered, atOnce, closed, henters, hbrought, hroom⟩ :=
      Session.enters_handle htype hfault
    have hfollows := henters.follows hroom
    rw [hbrought] at hfollows
    exact hfollows
  · rw [Session.released?, htype]
    exact (s.enters_release e).follows s.awaits_le_one

theorem follows_answer (b : Bridge) (id : SessionId) (replyTo : RequestId) (content : Content) :
    b.Follows [] none (b.answer id replyTo content) := by
  rcases hlive : b.session? id with _ | s
  · rw [answer_of_none hlive]
    exact follows_of_same (fun t ht => ⟨t, ht, rfl, rfl⟩) rfl
  · obtain ⟨hs, rfl⟩ := session?_eq_some_iff.1 hlive
    rw [answer_of_some hs]
    exact follows_ite hs fun hfault => (Session.enters_reply hfault).follows s.awaits_le_one

/-- **The entries follow the requests and the answers, whatever the input is.** -/
theorem follows_step (b : Bridge) (input : Input) :
    b.Follows (b.request? input).toList (b.released? input) (b.step input) := by
  by_cases hframe : ∃ id bytes, input = .frame id bytes
  · obtain ⟨id, bytes, rfl⟩ := hframe
    exact b.follows_receive id bytes
  have hnone : b.request? input = none ∧ b.released? input = none := by
    rcases input with _ | _ | _ | _ | _ | _ | _ | ⟨id, bytes⟩ | _ | _ | _ | _ | _
    case frame => exact absurd ⟨id, bytes, rfl⟩ hframe
    all_goals exact ⟨rfl, rfl⟩
  rw [hnone.1, hnone.2, Option.toList_none]
  have h := b.stepped input
  generalize b.step input = result at h ⊢
  cases h with
  | unmoved | equipped | suppressing | unattended | skipped =>
    exact follows_of_same (fun t ht => ⟨t, ht, rfl, rfl⟩) rfl
  | finalized address =>
    refine follows_of_same (fun t ht => ?_) rfl
    obtain ⟨s, hs, rfl⟩ := Option.map_eq_some_iff.1 (Option.mem_def.1 ht)
    exact ⟨s, hs, rfl, rfl⟩
  | began hnew =>
    rintro _ ⟨⟩
    exact Or.inl ⟨rfl, hnew, fun _ => rfl⟩
  | deafened hs =>
    refine follows_of_same ?_ rfl
    rintro _ ⟨⟩
    exact ⟨_, hs, rfl, rfl⟩
  | dropped | closed => exact follows_of_none rfl
  | asked hs => exact follows_settle hs fun _ => follows_returning _ (Session.enters_forward ..)
  | @reached s step cursor _ hs =>
    exact follows_ite (t := returning b.calls (s.reachTarget b.calls cursor.id (step.content []))) hs
      fun hfault => follows_returning _ (Session.enters_reachTarget hfault)
  | received => exact absurd ⟨_, _, rfl⟩ hframe
  | answered => exact b.follows_answer _ _ _

end Bridge

namespace World

/-- The id whose entry a move releases. -/
def released? (w : World) : Move → Option RequestId
  | .input input => w.bridge.released? input
  | _ => none

theorem follows_respond (w : World) (m : Move) :
    w.bridge.Follows (w.request? m).toList (w.released? m) (w.respond m) := by
  rcases m with input | injection | injection | call
  · exact w.bridge.follows_step input
  · exact Bridge.follows_of_same (fun t ht => ⟨t, ht, rfl, rfl⟩) (Effect.filterMap_answer?_wakes _)
  · exact Bridge.follows_of_same (fun t ht => ⟨t, ht, rfl, rfl⟩) (Effect.filterMap_answer?_wakes _)
  · exact Bridge.follows_of_same (fun t ht => ⟨t, ht, rfl, rfl⟩) rfl

/-! ## Requests without an answer -/

/-- **How many requests of a session under an id have no answer**: the reads of storage under way,
the injections that the engine has not taken or refused, and the run under way. -/
def unanswered (w : World) (s : Session) (id : RequestId) : Nat :=
  w.reading.count (s.id, id) + w.offering.count (s.id, id) + s.dues.count id

/-- What has come in was answered, or has no answer. -/
theorem InBalance.unanswered_eq {w : World} (h : w.InBalance) {s : Session}
    (hs : s ∈ w.bridge.session) (id : RequestId) :
    w.requests.count (s.id, id) = w.answers.count (s.id, id) + w.unanswered s id := by
  have hbalance := h.balance s hs id
  rw [serving] at hbalance
  rw [unanswered]
  omega

/-- **Requests come in and answers go out.** -/
theorem InBalance.unanswered_step {w : World} {m : Move} (allowed : w.Allows m) (h : w.InBalance)
    {s t : Session} (hs : s ∈ w.bridge.session) (ht : t ∈ (w.step m).bridge.session)
    (hid : t.id = s.id) (id : RequestId) :
    (w.step m).unanswered t id + ((w.respond m).2.filterMap Effect.answer?).count (s.id, id) =
      w.unanswered s id + (w.request? m).toList.count (s.id, id) := by
  have hbefore := h.unanswered_eq hs id
  have hafter := (h.step allowed).unanswered_eq ht id
  have hrequests := count_requests_step w m (s.id, id)
  rw [hid, answers_step, List.count_append] at hafter
  omega

/-- Nothing was asked in a new session. -/
theorem InBalance.unanswered_of_new {w : World} {m : Move} (allowed : w.Allows m) (h : w.InBalance)
    {t : Session} (ht : t ∈ (w.step m).bridge.session) (hnew : w.bridge.session = none)
    (hid : t.id = w.bridge.sessions + 1) (id : RequestId) : (w.step m).unanswered t id = 0 := by
  have hbefore := (h.known (t.id, id) (hid ▸ Nat.lt_succ_self _)).1
  have hbrought : (w.request? m).toList.count (t.id, id) = 0 :=
    (count_of_not_live (by simp [hnew])).1
  have hrequests := count_requests_step w m (t.id, id)
  have hafter := (h.step allowed).unanswered_eq ht id
  omega

/-! ## Entries -/

/-- Every entry of the debugger is one of a request without an answer. -/
def Covered (w : World) : Prop :=
  ∀ s ∈ w.bridge.session, ∀ id, s.awaits id ≤ w.unanswered s id

/-- Every request without an answer has an entry of its own. -/
def EntryForEach (w : World) : Prop :=
  ∀ s ∈ w.bridge.session, ∀ id, w.unanswered s id ≤ s.awaits id

/-- **Whether every request without an answer is pending.** -/
def KeepsEntries (w : World) : Prop :=
  ∀ s ∈ w.bridge.session, ∀ id, 0 < w.unanswered s id →
    s.pending.get? id = some .awaitingReply

/-- **Whether the debugger answers a request of its own**: a message of it releases an id under
which a request still has no answer. -/
def AnswersOwn (w : World) (m : Move) : Prop :=
  ∃ id ∈ w.released? m, ∃ t ∈ (w.step m).bridge.session, 0 < (w.step m).unanswered t id

theorem covered_new (config : Config) : (World.new config).Covered := by
  rintro _ ⟨⟩

theorem entryForEach_new (config : Config) : (World.new config).EntryForEach := by
  rintro _ ⟨⟩

theorem EntryForEach.keepsEntries {w : World} (h : w.EntryForEach) : w.KeepsEntries :=
  fun s hs id hpos => Session.awaits_pos_iff.1 (Nat.lt_of_lt_of_le hpos (h s hs id))

theorem Covered.step {w : World} {m : Move} (allowed : w.Allows m)
    (h : w.InBalance ∧ w.Covered) : (w.step m).InBalance ∧ (w.step m).Covered := by
  obtain ⟨balance, covered⟩ := h
  refine ⟨balance.step allowed, fun t ht id => ?_⟩
  rcases w.follows_respond m t ht with ⟨-, -, hnone⟩ | ⟨s, hs, hfollows⟩
  · rw [hnone]
    exact Nat.zero_le _
  · have hstep := balance.unanswered_step allowed hs ht hfollows.id_eq id
    have hbefore := covered s hs id
    rcases hfollows.covered id with hnone | heq
    · rw [hnone]
      exact Nat.zero_le _
    · omega

/-- A move in which the debugger does not answer a request of its own keeps the entries. -/
theorem EntryForEach.step {w : World} {m : Move} (h : w.EntryForEach) (allowed : w.Allows m)
    (balance : w.InBalance) (hnot : ¬w.AnswersOwn m) : (w.step m).EntryForEach := by
  intro t ht id
  rcases w.follows_respond m t ht with ⟨hid, hnew, -⟩ | ⟨s, hs, hfollows⟩
  · rw [balance.unanswered_of_new allowed ht hnew hid]
    exact Nat.zero_le _
  by_cases hreleased : id ∈ w.released? m
  · have hzero := Nat.eq_zero_of_not_pos fun hpos => hnot ⟨id, hreleased, t, ht, hpos⟩
    rw [hzero]
    exact Nat.zero_le _
  · have hstep := balance.unanswered_step allowed hs ht hfollows.id_eq id
    have hbefore := h s hs id
    have hkept := hfollows.kept id hreleased
    omega

/-- A move in which it does loses an entry. -/
theorem KeepsEntries.not_answersOwn {w : World} {m : Move} (h : (w.step m).KeepsEntries) :
    ¬w.AnswersOwn m := by
  rintro ⟨id, hid, t, ht, hpos⟩
  have hentry := Session.awaits_pos_iff.2 (h t ht id hpos)
  rcases w.follows_respond m t ht with ⟨-, -, hnone⟩ | ⟨s, hs, hfollows⟩
  · rw [hnone] at hentry
    cases hentry
  · rw [hfollows.released id hid] at hentry
    cases hentry

/-- **The entries are kept throughout a run** exactly if in no move the debugger answers a request
of its own. -/
theorem EntryForEach.run_iff {w : World} {moves : List Move} (legal : Legal w moves)
    (balance : w.InBalance) (h : w.EntryForEach) :
    (∀ first, first <+: moves → (w.run first).KeepsEntries) ↔
      Along (fun w m => ¬w.AnswersOwn m) w moves := by
  induction moves generalizing w with
  | nil =>
    refine ⟨fun _ => trivial, fun _ first hfirst => ?_⟩
    rw [List.prefix_nil.1 hfirst]
    exact h.keepsEntries
  | cons m rest ih =>
    obtain ⟨allowed, legal⟩ := legal
    constructor
    · intro hall
      have hnot := (hall [m] (List.prefix_append [m] rest)).not_answersOwn
      refine ⟨hnot, (ih legal (balance.step allowed) (h.step allowed balance hnot)).1 ?_⟩
      exact fun first hfirst => hall (m :: first) (List.cons_prefix_cons.2 ⟨rfl, hfirst⟩)
    · rintro ⟨hnot, hrest⟩ first hfirst
      rcases List.prefix_cons_iff.1 hfirst with rfl | ⟨later, rfl, hlater⟩
      · exact h.keepsEntries
      · exact (ih legal (balance.step allowed) (h.step allowed balance hnot)).2 hrest later hlater

/-- A request under an id that has an entry is refused. -/
theorem step_refused {b : Bridge} {s : Session} (hs : b.session = some s) {bytes : List UInt8}
    {e : Envelope} (hdecode : Envelope.decode bytes = .ok e) (htype : e.type = .request)
    {held : Continuation} (h : s.pending.get? e.id = some held) :
    b.step (.frame s.id bytes) =
      b.settle (s.send (.response e.id (Reply.error Reply.duplicateId))) := by
  show b.receive s.id bytes = _
  rw [Bridge.receive, hdecode, Bridge.session?_eq_some_iff.2 ⟨hs, rfl⟩]
  dsimp only
  rw [Session.receive, htype]
  dsimp only
  rw [Session.handle, Pending.register_of_some h]

/-- **A request without an answer is pending, unless the debugger answers it itself.** Every entry
of the debugger is one of a request without an answer. Throughout a run every request without an
answer has its entry exactly if in no move of the run the debugger answers a request of its own; and
as long as the entries are there, another request under the same id is refused. -/
theorem unanswered_pending_iff (config : Config) {moves : List Move}
    (legal : Legal (.new config) moves) :
    let w := run (.new config) moves
    (∀ s ∈ w.bridge.session, ∀ id, s.pending.get? id = some .awaitingReply →
      0 < w.unanswered s id) ∧
    ((∀ first, first <+: moves → (run (.new config) first).KeepsEntries) ↔
      Along (fun w m => ¬w.AnswersOwn m) (.new config) moves) ∧
    (w.KeepsEntries → ∀ s ∈ w.bridge.session, ∀ bytes e, Envelope.decode bytes = .ok e →
      e.type = .request → 0 < w.unanswered s e.id →
      w.bridge.step (.frame s.id bytes) =
        w.bridge.settle (s.send (.response e.id (Reply.error Reply.duplicateId)))) := by
  intro w
  have covered : w.InBalance ∧ w.Covered :=
    legal.invariant Covered.step ⟨inBalance_new config, covered_new config⟩
  refine ⟨fun s hs id hentry => ?_, ?_, ?_⟩
  · exact Nat.lt_of_lt_of_le (Session.awaits_pos_iff.2 hentry) (covered.2 s hs id)
  · exact EntryForEach.run_iff legal (inBalance_new config) (entryForEach_new config)
  · exact fun keeps s hs bytes e hdecode htype hpos =>
      step_refused hs hdecode htype (keeps s hs e.id hpos)

theorem legal_take_reusedId (n : Nat) : Legal (.new .default) (reusedId.take n) :=
  (along_append.1 ((List.take_append_drop n reusedId).symm ▸ legal_reusedId)).1

/-- After the first three moves of `reusedId` the engine reads storage for `x`. -/
theorem run_openRead :
    let w := run (.new .default) (reusedId.take 3)
    (∃ s ∈ w.bridge.session, 0 < w.unanswered s "x") ∧
      Along (fun w m => w.released? m = none) (.new .default) (reusedId.take 3) :=
  ⟨by decide +kernel, rfl, rfl, by decide +kernel, trivial⟩

theorem unanswered_pending_iff_openRead :
    let moves := reusedId.take 3
    let w := run (.new .default) moves
    (∃ s ∈ w.bridge.session, 0 < w.unanswered s "x") ∧
      ∀ first, first <+: moves → (run (.new .default) first).KeepsEntries := by
  obtain ⟨hasked, hattach, hengine, hread, -⟩ := run_openRead
  have hnot {w : World} {m : Move} (h : w.released? m = none) : ¬w.AnswersOwn m := by
    rintro ⟨id, hid, -⟩
    rw [h] at hid
    cases hid
  exact ⟨hasked, (unanswered_pending_iff .default (legal_take_reusedId 3)).2.1.2
    ⟨hnot hattach, hnot hengine, hnot hread, trivial⟩⟩

/-- When it has answered its own request there is no entry, and the read goes on. -/
theorem run_ownAnswer :
    let w := run (.new .default) (reusedId.take 4)
    w.reads = [openRead] ∧ ∃ s ∈ w.bridge.session, openRead.request = (s.id, "x") ∧
      0 < w.unanswered s "x" ∧ s.pending.get? "x" = none := by decide +kernel

/-- **A request that is not pending while the engine still reads storage for it**: the debugger has
responded to it, and the entry is gone. A second request under its id is not refused, but begins a
run. -/
theorem not_pending_after_response :
    let w := run (.new .default) (reusedId.take 4)
    Legal (.new .default) reusedId ∧ reusedId.take 4 <+: reusedId ∧ w.reads = [openRead] ∧
    (∃ s ∈ w.bridge.session, openRead.request = (s.id, "x") ∧ 0 < w.unanswered s "x" ∧
      s.pending.get? "x" = none) ∧
    ∃ s ∈ (run (.new .default) reusedId).bridge.session, s.state.runUntil = some ⟨"x", 7⟩ := by
  obtain ⟨hreads, hnone⟩ := run_ownAnswer
  obtain ⟨⟨s, hs, -, -, hrun, -⟩, -⟩ := run_reusedId
  exact ⟨legal_reusedId, List.take_prefix 4 reusedId, hreads, hnone, s, hs, hrun⟩

end World

end DebugBridge

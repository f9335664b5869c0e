import DebugBridge.Proofs.Bridge.Basic
import DebugBridge.Proofs.Session.Serving
import Mathlib.Data.List.Count
import Mathlib.Data.Prod.Basic

/-!
# Bridge/Ledger — every request of the debugger is answered once

A ledger is kept of the requests of every session: a request that has come in has been answered, or
a read of storage is under way for it, or the engine was offered an injection for it, or it is the
run that is under way. The four exclude each other, and ids may come again, so the ledger counts
(`requests_balance`).

The engine takes or refuses an injection before anything else happens, unless it calls the bridge
while it does so; at all other times nothing is offered, and what is outstanding is a read or the
run. A message that cannot be sent ends the session, so nothing was lost while a session is live.
Which answer a run is waiting for, and that nothing else answers it, is said in `Bridge/Running`
(`run_unanswered_until_end`).
-/

namespace DebugBridge

/-- The requests that the engine is done with after a move. -/
def Move.completes (m : Move) : List (SessionId × RequestId) :=
  m.read?.toList.map (·.request) ++ m.offer?.toList.map (·.request)

namespace Bridge

/-- **The balance of an operation** that brings some requests. A session that is live afterwards is
a new one, or the requests that were brought to it and those that it had in hand are those that were
served and those that it has in hand. -/
structure Balances (b : Bridge) (brought : List (SessionId × RequestId))
    (result : Bridge × List Effect) : Prop where
  sessions_le : b.sessions ≤ result.1.sessions
  own : ∀ request ∈ result.2.filterMap Effect.serves?, ∃ s ∈ b.session, request.1 = s.id
  live : ∀ t ∈ result.1.session,
    (t.id = b.sessions + 1 ∧ result.1.sessions = t.id ∧ t.dues = [] ∧
      b.session = none) ∨
    ∃ s ∈ b.session, t.id = s.id ∧ ∀ id, brought.count (s.id, id) + s.dues.count id =
      (result.2.filterMap Effect.serves?).count (s.id, id) + t.dues.count id

section

variable {b : Bridge} {s : Session} {t : Turn} {ids : List RequestId}

theorem own_of_serves (h : b.session = some s) (ht : t.Serves s ids) :
    ∀ request ∈ t.served, ∃ s ∈ b.session, request.1 = s.id := by
  obtain ⟨served, hserved, -⟩ := ht.balance
  intro request hmem
  rw [hserved] at hmem
  obtain ⟨id, -, rfl⟩ := List.mem_map.1 hmem
  exact ⟨s, h, rfl⟩

theorem count_map_mk (sid : SessionId) (ids : List RequestId) (id : RequestId) :
    (ids.map (Prod.mk sid)).count (sid, id) = ids.count id :=
  List.count_map_of_injective _ _ (Prod.mk_right_injective sid) _

/-- Going on with the session after a turn that balances. -/
theorem balances_keep (h : b.session = some s) (ht : t.Serves s ids) (hfault : t.fault = none) :
    b.Balances (ids.map (Prod.mk s.id)) (b.keep t) where
  sessions_le := Nat.le_refl _
  own := own_of_serves h ht
  live := by
    rintro _ ⟨⟩
    obtain ⟨served, hserved, hperm⟩ := ht.balance
    refine Or.inr ⟨s, h, ht.id_eq, fun id => ?_⟩
    have hcount := (hperm hfault).count_eq id
    rw [List.count_append, List.count_append] at hcount
    show _ = t.served.count (s.id, id) + _
    rw [hserved, count_map_mk, count_map_mk]
    exact hcount

/-- Going on with the session after a quiet turn. -/
theorem balances_keep_quiet (h : b.session = some s) (ht : t.Quiet s) :
    b.Balances [] (b.keep t) where
  sessions_le := Nat.le_refl _
  own := own_of_serves h ht.serves
  live := by
    rintro _ ⟨⟩
    refine Or.inr ⟨s, h, ht.id_eq, fun id => ?_⟩
    show _ = t.served.count (s.id, id) + t.session.dues.count id
    rw [ht.served_eq, ht.dues_eq]

/-- Ending the session after a turn. -/
theorem balances_abort (h : b.session = some s) (ht : t.Serves s ids)
    (brought : List (SessionId × RequestId)) : b.Balances brought (b.abort t) where
  sessions_le := Nat.le_refl _
  own := by
    rw [filterMap_abort fun _ _ => rfl]
    exact own_of_serves h ht
  live := by rintro _ ⟨⟩

theorem balances_settle (h : b.session = some s) (ht : t.Serves s ids) (hsound : t.Sound) :
    b.Balances (ids.map (Prod.mk s.id)) (b.settle t) := by
  rw [settle]
  rcases hsound with hfault | hfault
  · rw [hfault]
    exact balances_keep h ht hfault
  · rw [hfault]
    exact balances_abort h ht _

theorem balances_settle_quiet (h : b.session = some s) (ht : t.Quiet s) :
    b.Balances [] (b.settle t) := by
  rw [settle]
  split
  · exact balances_abort h ht.serves _
  · exact balances_keep_quiet h ht

end

/-- An operation that leaves the session alone and brings it nothing. -/
theorem balances_of_same {b b' : Bridge} {effects : List Effect}
    {brought : List (SessionId × RequestId)} (hsessions : b'.sessions = b.sessions)
    (hsession : ∀ t ∈ b'.session, ∃ s ∈ b.session, t.id = s.id ∧ t.dues = s.dues)
    (hserved : effects.filterMap Effect.serves? = [])
    (hbrought : ∀ s ∈ b.session, ∀ id, (s.id, id) ∉ brought) :
    b.Balances brought (b', effects) where
  sessions_le := Nat.le_of_eq hsessions.symm
  own := by rw [hserved]; simp
  live := by
    intro t ht
    obtain ⟨s, hs, hid, hdues⟩ := hsession t ht
    refine Or.inr ⟨s, hs, hid, fun id => ?_⟩
    rw [hserved, hdues, List.count_eq_zero.2 (hbrought s hs id)]
    rfl

theorem balances_refl (b : Bridge) {effects : List Effect}
    (hserved : effects.filterMap Effect.serves? = []) : b.Balances [] (b, effects) :=
  balances_of_same rfl (fun t ht => ⟨t, ht, rfl, rfl⟩) hserved (by simp)

/-- The end of a session serves nothing. -/
theorem balances_lose (b : Bridge) (s : Session) (brought : List (SessionId × RequestId)) :
    b.Balances brought (b.lose s) where
  sessions_le := Nat.le_refl _
  own := by
    show ∀ request ∈ s.close.filterMap Effect.serves?, _
    rw [filterMap_close fun _ _ => rfl]
    simp
  live := by rintro _ ⟨⟩

/-! ## Every input balances -/

theorem quiet_returning {t : Turn} {s : Session} (h : t.Quiet s) (call : CallId) :
    (returning call t).Quiet s := by
  exact ⟨h.id_eq, h.dues_eq, (filterMap_returning (fun _ _ => rfl) call t).trans h.served_eq⟩

theorem serves_returning {t : Turn} {s : Session} {ids : List RequestId} (h : t.Serves s ids)
    (call : CallId) : (returning call t).Serves s ids := by
  obtain ⟨served, hserved, hperm⟩ := h.balance
  exact ⟨h.id_eq, served, (filterMap_returning (fun _ _ => rfl) call t).trans hserved, hperm⟩

theorem balances_calling (b : Bridge) {effects : List Effect}
    (hserved : effects.filterMap Effect.serves? = []) : b.Balances [] (b.calling, effects) :=
  balances_of_same rfl (fun t ht => ⟨t, ht, rfl, rfl⟩) hserved (by simp)

/-- That a call has started is of no matter to the balance. -/
theorem Balances.of_calling {b : Bridge} {brought : List (SessionId × RequestId)}
    {result : Bridge × List Effect} (h : b.calling.Balances brought result) :
    b.Balances brought result :=
  ⟨h.sessions_le, h.own, h.live⟩

theorem balances_forward {b : Bridge} {s : Session} (h : b.session = some s) (id : RequestId)
    (trigger : String) (content : Content) :
    b.Balances [] (b.calling.settle
      (returning b.calls (s.forward b.calls id trigger content))) :=
  Balances.of_calling (balances_settle_quiet h (quiet_returning (s.quiet_forward _ _ _ _) _))

/-- The step at the target of the run under way. -/
theorem balances_reachTarget {b : Bridge} {s : Session} {cursor : RunUntil} (h : b.session = some s)
    (hcursor : s.state.runUntil = some cursor) (content : Content) :
    b.Balances []
      (if (s.reachTarget b.calls cursor.id content).fault.isSome then
        b.calling.abort (returning b.calls (s.reachTarget b.calls cursor.id content))
      else b.calling.keep (returning b.calls (s.reachTarget b.calls cursor.id content))) := by
  have hserves := serves_returning (s.serves_reachTarget hcursor b.calls content) b.calls
  have hcalling : b.calling.session = some s := h
  refine Balances.of_calling ?_
  rcases hfault : (s.reachTarget b.calls cursor.id content).fault with _ | fault
  · exact balances_keep hcalling hserves hfault
  · exact balances_abort hcalling hserves _

theorem balances_receive {b : Bridge} {s : Session} (h : b.session = some s) {e : Envelope}
    {bytes : List UInt8} (hdecode : Envelope.decode bytes = .ok e) :
    b.Balances (b.request? (.frame s.id bytes)).toList
      (b.settle (s.receive b.config.scopeMode b.hasEngine e)) := by
  rw [request?, hdecode, session?_eq_some_iff.2 ⟨h, rfl⟩, Session.receive]
  dsimp only
  rcases e.type
  · exact balances_settle h (s.serves_handle _ _ e) (s.handled _ _ e).sound
  · exact balances_settle_quiet h (s.quiet_release e)

theorem balances_answer (b : Bridge) (id : SessionId) (replyTo : RequestId) (content : Content) :
    b.Balances [(id, replyTo)] (b.answer id replyTo content) := by
  rcases hlive : b.session? id with _ | s
  · rw [answer_of_none hlive]
    refine balances_of_same rfl (fun t ht => ⟨t, ht, rfl, rfl⟩) rfl fun s hs key hmem => ?_
    have hid : s.id = id := congrArg Prod.fst (List.mem_singleton.1 hmem)
    rw [session?_eq_some_iff.2 ⟨hs, hid⟩] at hlive
    cases hlive
  · obtain ⟨hs, rfl⟩ := session?_eq_some_iff.1 hlive
    rw [answer_of_some hs]
    split
    · exact balances_abort hs (s.serves_reply _ _) _
    · next hfault => exact balances_keep hs (s.serves_reply _ _) (by simpa using hfault)

theorem completes_input (input : Input) :
    (Move.input input).completes = input.service?.toList := by
  rcases input <;> rfl

/-- **Every input balances**: with the request that it brings and the one that the engine is done
with. -/
theorem balances_step (b : Bridge) (input : Input) :
    b.Balances ((b.request? input).toList ++ (Move.input input).completes) (b.step input) := by
  rw [completes_input]
  have h := b.stepped input
  generalize b.step input = result at h ⊢
  cases h with
  | unmoved _ hservice hrequest =>
    rw [hservice, hrequest]
    exact b.balances_refl rfl
  | equipped | suppressing =>
    exact balances_of_same rfl (fun t ht => ⟨t, ht, rfl, rfl⟩) rfl (by rintro s hs key ⟨⟩)
  | finalized address =>
    refine balances_of_same rfl (fun t ht => ?_) rfl (by rintro s hs key ⟨⟩)
    obtain ⟨s, hs, rfl⟩ := Option.map_eq_some_iff.1 (Option.mem_def.1 ht)
    exact ⟨s, hs, rfl, rfl⟩
  | began hnone =>
    refine ⟨Nat.le_succ _, by rintro request ⟨⟩, ?_⟩
    rintro _ ⟨⟩
    exact Or.inl ⟨rfl, rfl, rfl, hnone⟩
  | @deafened s hs =>
    refine balances_of_same rfl ?_ rfl (by rintro s hs key ⟨⟩)
    rintro _ ⟨⟩
    exact ⟨s, hs, rfl, rfl⟩
  | dropped | closed => exact b.balances_lose _ _
  | unattended _ hmade =>
    rw [(request?_of_made? hmade).1, (request?_of_made? (b := b) hmade).2]
    exact b.balances_calling rfl
  | skipped => exact b.balances_calling rfl
  | asked hs hasks =>
    have hmade := request?_of_made? (b := b) (made?_of_asks? hasks)
    rw [hmade.1, hmade.2]
    exact balances_forward hs _ _ _
  | reached _ hs hcursor => exact balances_reachTarget hs hcursor _
  | received hs hdecode =>
    show b.Balances (_ ++ []) _
    rw [List.append_nil]
    exact balances_receive hs hdecode
  | answered hservice =>
    rw [request?_of_service? hservice, hservice]
    exact b.balances_answer _ _ _

end Bridge

/-! ## The ledger -/

theorem Effect.count_serves? (effects : List Effect) (request : SessionId × RequestId) :
    (effects.filterMap serves?).count request =
      (effects.filterMap answer?).count request +
        ((effects.filterMap read?).map (·.request)).count request +
        ((effects.filterMap injection?).map (·.request)).count request := by
  induction effects with
  | nil => rfl
  | cons effect rest ih =>
    rcases effect with ⟨session, frame⟩ | ⟨call, outcome⟩ | read | injection
    · rcases h : answer? (.send session frame) with _ | answered
      · simpa [List.filterMap_cons, serves?, read?, injection?, h] using ih
      · simp only [List.filterMap_cons, serves?, read?, injection?, h, List.count_cons]
        omega
    · simpa [List.filterMap_cons, serves?, answer?, read?, injection?] using ih
    · simp only [List.filterMap_cons, serves?, answer?, read?, injection?, List.map_cons,
        List.count_cons]
      omega
    · simp only [List.filterMap_cons, serves?, answer?, read?, injection?, List.map_cons,
        List.count_cons]
      omega

/-- What is taken from a list that has it is missing there. -/
theorem count_map_elim_erase {α : Type} [DecidableEq α] {l : List α} {taken : Option α}
    (h : ∀ a ∈ taken, a ∈ l) (f : α → SessionId × RequestId) (request : SessionId × RequestId) :
    ((taken.elim l l.erase).map f).count request + (taken.toList.map f).count request =
      (l.map f).count request := by
  rcases taken with _ | a
  · rfl
  · have hperm := (List.perm_cons_erase (h a rfl)).map f
    rw [hperm.count_eq, List.map_cons, List.count_cons]
    show _ + [f a].count request = _
    rw [List.count_singleton]
    rfl

namespace World

/-- The requests for which a read of storage is under way. -/
def reading (w : World) : List (SessionId × RequestId) :=
  w.reads.map (·.request)

/-- The requests for which the engine has been offered an injection. -/
def offering (w : World) : List (SessionId × RequestId) :=
  w.offers.map (·.request)

/-- How often a request has been served. -/
def serving (w : World) (request : SessionId × RequestId) : Nat :=
  w.answers.count request + w.reading.count request + w.offering.count request

theorem count_requests_step (w : World) (m : Move) (request : SessionId × RequestId) :
    (w.step m).requests.count request =
      w.requests.count request + (w.request? m).toList.count request :=
  List.count_append

/-- What a move serves is new; what the engine is done with was served before. -/
theorem serving_step {w : World} {m : Move} (allowed : w.Allows m)
    (request : SessionId × RequestId) :
    (w.step m).serving request + m.completes.count request =
      w.serving request + ((w.respond m).2.filterMap Effect.serves?).count request := by
  have hreads := count_map_elim_erase allowed.read (·.request) request
  have hoffers := count_map_elim_erase allowed.offer (·.request) request
  rw [serving, serving, answers_step, Effect.count_serves?, Move.completes, reading, reading,
    offering, offering, step, List.map_append, List.map_append, List.count_append,
    List.count_append, List.count_append, List.count_append]
  omega

theorem balances_respond (w : World) (m : Move) :
    w.bridge.Balances ((w.request? m).toList ++ m.completes) (w.respond m) := by
  rcases m with input | injection | injection | call
  · exact w.bridge.balances_step input
  · exact w.bridge.balances_refl (Effect.filterMap_serves?_wakes _)
  · exact w.bridge.balances_refl (Effect.filterMap_serves?_wakes _)
  · exact w.bridge.balances_refl rfl

/-- A request comes in over the link of the live session. -/
theorem live_of_request? {w : World} {m : Move} {request : SessionId × RequestId}
    (h : w.request? m = some request) : ∃ s ∈ w.bridge.session, request.1 = s.id := by
  rcases m with input | injection | injection | call
  · rcases input with _ | _ | _ | _ | _ | _ | _ | ⟨id, bytes⟩ | _ | _ | _ | _ | _
    case frame =>
      rw [World.request?, Bridge.request?] at h
      split at h
      · next e s _ hlive =>
        obtain ⟨hs, rfl⟩ := Bridge.session?_eq_some_iff.1 hlive
        split at h
        · exact ⟨s, hs, by rw [← Option.some.inj h]⟩
        · cases h
      · cases h
    all_goals cases h
  all_goals cases h

/-- **The ledger is in balance**, and nothing is in it of sessions yet to come. -/
structure InBalance (w : World) : Prop where
  known : ∀ request : SessionId × RequestId, w.bridge.sessions < request.1 →
    w.requests.count request = 0 ∧ w.serving request = 0
  session_le : ∀ s ∈ w.bridge.session, s.id ≤ w.bridge.sessions
  balance : ∀ s ∈ w.bridge.session, ∀ id,
    w.requests.count (s.id, id) = w.serving (s.id, id) + s.dues.count id

theorem inBalance_new (config : Config) : (World.new config).InBalance where
  known := fun _ _ => ⟨rfl, rfl⟩
  session_le := by rintro _ ⟨⟩
  balance := by rintro _ ⟨⟩

/-- A move neither brings nor serves a request of a session yet to come. -/
theorem count_of_not_live {w : World} {m : Move} {request : SessionId × RequestId}
    (h : ∀ s ∈ w.bridge.session, request.1 ≠ s.id) :
    (w.request? m).toList.count request = 0 ∧
      ((w.respond m).2.filterMap Effect.serves?).count request = 0 := by
  refine ⟨List.count_eq_zero.2 fun hmem => ?_, List.count_eq_zero.2 fun hmem => ?_⟩
  · obtain ⟨s, hs, hid⟩ := live_of_request? (Option.mem_toList.1 hmem)
    exact h s hs hid
  · obtain ⟨s, hs, hid⟩ := (w.balances_respond m).own request hmem
    exact h s hs hid

theorem InBalance.step {w : World} {m : Move} (allowed : w.Allows m) (h : w.InBalance) :
    (w.step m).InBalance := by
  obtain ⟨hsessions, hown, hlive⟩ := w.balances_respond m
  have hfuture : ∀ request : SessionId × RequestId, w.bridge.sessions < request.1 →
      (w.step m).requests.count request = 0 ∧ (w.step m).serving request = 0 := by
    intro request hlt
    obtain ⟨hrequests, hserving⟩ := h.known request hlt
    obtain ⟨hbrought, hserved⟩ := count_of_not_live (m := m) fun s hs heq =>
      Nat.not_lt_of_le (h.session_le s hs) (heq ▸ hlt)
    have hcount := count_requests_step w m request
    have hstep := serving_step allowed request
    omega
  refine ⟨fun request hlt => hfuture request (Nat.lt_of_le_of_lt hsessions hlt), ?_, ?_⟩
  · intro t ht
    rcases hlive t ht with ⟨-, hid, -, -⟩ | ⟨s, hs, hid, -⟩
    · exact Nat.le_of_eq hid.symm
    · exact hid ▸ Nat.le_trans (h.session_le s hs) hsessions
  · intro t ht id
    rcases hlive t ht with ⟨hid, -, hdues, -⟩ | ⟨s, hs, hid, hcount⟩
    · obtain ⟨hrequests, hserving⟩ := hfuture (t.id, id) (hid ▸ Nat.lt_succ_self _)
      rw [hrequests, hserving, hdues]
      rfl
    · have hbefore := h.balance s hs id
      have hrequests := count_requests_step w m (s.id, id)
      have hserving := serving_step allowed (s.id, id)
      have hbalance := hcount id
      rw [List.count_append] at hbalance
      rw [hid]
      omega

/-- Every world that can come about is in balance. -/
theorem Reachable.inBalance {w : World} (h : w.Reachable) : w.InBalance :=
  h.invariant inBalance_new InBalance.step

/-- **The ledger of requests.** Whatever has happened, and however often an id has come, the
requests of the live session under an id are those that were answered, those for which the engine
reads storage or has been offered an injection, and the run under way. So no answer goes out
without a request, and while no injection is offered what is outstanding is a read or the run. -/
theorem requests_balance {w : World} (reachable : w.Reachable) {s : Session}
    (live : w.bridge.session = some s) (id : RequestId) :
    w.requests.count (s.id, id) =
        w.answers.count (s.id, id) + w.reading.count (s.id, id) + w.offering.count (s.id, id) +
          (if s.state.runUntil.any (·.id == id) then 1 else 0) ∧
      w.answers.count (s.id, id) ≤ w.requests.count (s.id, id) ∧
      (w.offers = [] → w.requests.count (s.id, id) =
        w.answers.count (s.id, id) + w.reading.count (s.id, id) +
          (if s.state.runUntil.any (·.id == id) then 1 else 0)) := by
  have hbalance := reachable.inBalance.balance s live id
  have hdues : s.dues.count id = if s.state.runUntil.any (·.id == id) then 1 else 0 := by
    rw [Session.dues]
    rcases s.state.runUntil with _ | cursor
    · rfl
    · exact List.count_singleton
  rw [serving, hdues] at hbalance
  refine ⟨hbalance, by omega, fun hoffers => ?_⟩
  rw [offering, hoffers, List.map_nil, List.count_nil, Nat.add_zero] at hbalance
  exact hbalance

/-- A debugger asks for storage, answers its own request, and under the same id asks to run up to a
program counter. -/
def reusedId : List Move :=
  [.input (.attach .established), .input .engine,
    .input (.frame 1 ("[\"x\",\"request\",\"\",\x7b\"type\":\"getStorage\",\"position\":\"0\"," ++
      "\"address\":\"00112233445566778899aabbccddeeff00112233\"\x7d]").toUTF8.toList),
    .input (.frame 1 "[\"x\",\"response\"]".toUTF8.toList),
    .input (.frame 1 ("[\"x\",\"request\",\"\",\x7b\"type\":\"runUntilPc\"," ++
      "\"pc\":7,\"stepId\":\"\"\x7d]").toUTF8.toList)]

/-- The read of storage that `reusedId` leaves under way. -/
def openRead : StorageRead :=
  ⟨1, "x", ⟨[0x00, 0x11, 0x22, 0x33, 0x44, 0x55, 0x66, 0x77, 0x88, 0x99, 0xaa, 0xbb, 0xcc, 0xdd,
    0xee, 0xff, 0x00, 0x11, 0x22, 0x33], rfl⟩, 0⟩

theorem run_reusedId :
    let w := run (.new .default) reusedId
    (∃ s ∈ w.bridge.session, s.id = 1 ∧ s.accepting = true ∧
      s.state.runUntil = some ⟨"x", 7⟩ ∧ s.pending.get? "x" = some .awaitingReply ∧
      s.pending.get? "a" = none) ∧
    w.requests = [(1, "x"), (1, "x")] ∧ w.reads = [openRead] ∧ w.kept = [] ∧ w.handed = [] ∧
    w.returned = [] ∧ w.cancelled = [] ∧ w.bridge.calls = 0 := by decide +kernel

theorem legal_reusedId : Legal (.new .default) reusedId :=
  ⟨allows_of_free rfl rfl rfl, allows_of_free rfl rfl rfl, allows_of_free rfl rfl rfl,
    allows_of_free rfl rfl rfl, allows_of_free rfl rfl rfl, trivial⟩

theorem requests_balance_reusedId :
    let w := run (.new .default) reusedId
    w.requests = [(1, "x"), (1, "x")] ∧ ∃ s, w.bridge.session = some s ∧
      w.requests.count (s.id, "x") =
        w.answers.count (s.id, "x") + w.reading.count (s.id, "x") + w.offering.count (s.id, "x") +
          (if s.state.runUntil.any (·.id == "x") then 1 else 0) := by
  obtain ⟨⟨s, hs, -⟩, hrequests, -⟩ := run_reusedId
  have reachable : (run (.new .default) reusedId).Reachable := ⟨.default, _, legal_reusedId, rfl⟩
  exact ⟨hrequests, s, hs, (requests_balance reachable hs "x").1⟩

end World

end DebugBridge

import DebugBridge.Proofs.Bridge.Messages

/-!
# Bridge/Isolation — a session that is over stays over

Every session has a number of its own: the live one has the last number that was given
(`id_eq_sessions`), and numbers are not given again. So a session that is over never lives again
(`Over.run`), and since whatever still arrives from it carries its number, none of it has an effect
(`step_of_absent`). A new session has nothing of those before it (`sessions_isolated`).
-/

namespace DebugBridge

/-- The session that an input comes from: the one over whose link it comes, or the one in which the
engine was asked for what it is done with. -/
def Input.origin? : Input → Option SessionId
  | .frame id _ | .linkClosed id | .linkDeaf id => some id
  | input => input.service?.map (·.1)

namespace Bridge

/-! ## One input -/

/-- **What comes from a session that is not live has no effect.** -/
theorem step_of_absent {b : Bridge} {input : Input} {id : SessionId} (h : input.origin? = some id)
    (absent : b.session? id = none) : b.step input = (b, []) := by
  rcases input with _ | _ | other | other | _ | _ | _ | ⟨other, bytes⟩ | ⟨injection, result⟩ |
    ⟨read, word⟩ | read | _ | _
  case linkClosed =>
    obtain rfl := Option.some.inj h
    show b.linkClosed other = _
    rw [linkClosed, absent]
  case linkDeaf =>
    obtain rfl := Option.some.inj h
    show (b.linkDeaf other, []) = _
    rw [linkDeaf, absent]
  case frame =>
    obtain rfl := Option.some.inj h
    show b.receive other bytes = _
    rw [receive, absent]
    split
    · next heq => cases heq
    · rfl
  case injected | storageRead | storageRefused =>
    obtain rfl := Option.some.inj h
    exact answer_of_none absent _ _
  all_goals cases h

/-- A number is given when a session begins, and at no other time. -/
theorem sessions_step (b : Bridge) (input : Input) :
    (b.step input).1.sessions = b.sessions ∨
      b.session = none ∧ (b.step input).1.sessions = b.sessions + 1 := by
  have hstepped := b.stepped input
  generalize b.step input = result at hstepped ⊢
  cases hstepped with
  | began hnone => exact Or.inr ⟨hnone, rfl⟩
  | unmoved | equipped | suppressing | finalized | deafened | dropped | closed | unattended |
    skipped => exact Or.inl rfl
  | asked | received => exact Or.inl (sessions_settle _ _)
  | reached => exact Or.inl (by split <;> rfl)
  | answered =>
    refine Or.inl ?_
    rw [answer]
    split
    · rfl
    · dsimp only
      split <;> rfl

end Bridge

namespace World

/-! ## Numbers -/

theorem sessions_le_step (w : World) (m : Move) :
    w.bridge.sessions ≤ (w.step m).bridge.sessions := by
  rcases m with input | _ | _ | _
  case input =>
    rcases w.bridge.sessions_step input with heq | ⟨-, heq⟩
    · exact Nat.le_of_eq heq.symm
    · exact Nat.le_of_lt (Nat.lt_of_lt_of_eq (Nat.lt_succ_self _) heq.symm)
  all_goals exact Nat.le_refl _

theorem sessions_le_run (w : World) (moves : List Move) :
    w.bridge.sessions ≤ (w.run moves).bridge.sessions := by
  induction moves generalizing w with
  | nil => exact Nat.le_refl _
  | cons m rest ih => exact Nat.le_trans (w.sessions_le_step m) (ih (w.step m))

/-- **A live session** was live before the move, or begins with it under a number of its own. -/
theorem session_cases {w : World} {m : Move} {t : Session}
    (ht : (w.step m).bridge.session = some t) :
    (∃ s, w.bridge.session = some s ∧ t.id = s.id ∧
        (w.step m).bridge.sessions = w.bridge.sessions) ∨
      w.bridge.session = none ∧ m = .input (.attach .established) ∧
        (w.step m).bridge.sessions = w.bridge.sessions + 1 ∧
        t = .start (w.bridge.sessions + 1) w.bridge.finalized := by
  rcases m with input | _ | _ | _
  case input =>
    rcases hs : w.bridge.session with _ | s
    · obtain ⟨rfl, hsessions, rfl⟩ := Bridge.began_of_none hs ht
      exact Or.inr ⟨rfl, rfl, hsessions, rfl⟩
    · refine Or.inl ⟨s, rfl, (Bridge.get?_of_live hs ht).1, ?_⟩
      rcases w.bridge.sessions_step input with heq | ⟨hnone, -⟩
      · exact heq
      · cases hnone.symm.trans hs
  all_goals exact Or.inl ⟨t, ht, rfl, rfl⟩

/-- **The live session has the last number.** -/
theorem id_eq_sessions (config : Config) (moves : List Move) :
    ∀ s ∈ (run (.new config) moves).bridge.session,
      s.id = (run (.new config) moves).bridge.sessions := by
  induction moves using List.reverseRecOn with
  | nil => rintro s ⟨⟩
  | append_singleton moves m ih =>
    intro t ht
    rw [run_concat] at ht ⊢
    rcases session_cases ht with ⟨s, hs, hid, hsessions⟩ | ⟨-, -, hsessions, rfl⟩
    · rw [hid, hsessions]
      exact ih s hs
    · exact hsessions.symm

/-! ## Sessions that are over -/

/-- **Whether a session is over**: its number was given, and it is not live. -/
structure Over (w : World) (id : SessionId) : Prop where
  given : id ≤ w.bridge.sessions
  absent : w.bridge.session? id = none

theorem Over.step {w : World} {id : SessionId} (h : w.Over id) (m : Move) : (w.step m).Over id where
  given := Nat.le_trans h.given (w.sessions_le_step m)
  absent := by
    rcases hlive : (w.step m).bridge.session? id with _ | t
    · rfl
    obtain ⟨ht, rfl⟩ := Bridge.session?_eq_some_iff.1 hlive
    rcases session_cases ht with ⟨s, hs, hid, -⟩ | ⟨-, -, -, rfl⟩
    · cases h.absent.symm.trans (Bridge.session?_eq_some_iff.2 ⟨hs, hid.symm⟩)
    · exact absurd h.given (Nat.not_succ_le_self _)

/-- **A session that is over stays over.** -/
theorem Over.run {w : World} {id : SessionId} (h : w.Over id) (moves : List Move) :
    (w.run moves).Over id := by
  induction moves generalizing w with
  | nil => exact h
  | cons m rest ih => exact ih (h.step m)

/-- Every session there has been has a number that was given. -/
theorem id_le_sessions {config : Config} {first moves : List Move} (hfirst : first <+: moves)
    {s : Session} (hs : s ∈ (run (.new config) first).bridge.session) :
    s.id ≤ (run (.new config) moves).bridge.sessions := by
  obtain ⟨rest, rfl⟩ := hfirst
  rw [id_eq_sessions config first s hs, run_append]
  exact sessions_le_run _ rest

/-- **Sessions are isolated.** A session that was live and is not stays over, and nothing that still
arrives from it has an effect, neither on the bridge nor for the debugger of a later session; nor
has what the engine does with an injection that it was handed. Whatever is sent goes to the live
session, and comes from it if it comes from any. A session that begins is none of those before it,
and nothing is set up in it. -/
theorem sessions_isolated (config : Config) (moves : List Move) :
    let w := run (.new config) moves
    (∀ first s, first <+: moves → s ∈ (run (.new config) first).bridge.session →
      w.bridge.session? s.id = none → ∀ later,
        let v := w.run later
        v.bridge.session? s.id = none ∧
          ∀ input, input.origin? = some s.id → v.respond (.input input) = (v.bridge, [])) ∧
    (∀ m, m.release?.isSome →
      (w.respond m).1 = w.bridge ∧ (w.respond m).2.filterMap Effect.sent? = []) ∧
    (∀ input, ∀ message ∈ (w.respond (.input input)).2.filterMap Effect.sent?,
      ∃ s ∈ w.bridge.session, message.1 = s.id ∧ ∀ id ∈ input.origin?, id = s.id) ∧
    (∀ m t, (w.step m).bridge.session = some t → (∀ s ∈ w.bridge.session, s.id ≠ t.id) →
      (∀ first, first <+: moves → ∀ s ∈ (run (.new config) first).bridge.session, s.id ≠ t.id) ∧
        t.state.breakpoints = .empty ∧ t.state.jumpDestinations = .empty ∧
        t.state.declarations = .empty ∧ t.state.runUntil = none ∧ t.state.fastStep = true ∧
        t.pending = .empty) := by
  intro w
  refine ⟨fun first s hfirst hs absent later => ?_, fun m hrelease => ?_,
    fun input message hmem => ?_, fun m t ht hnew => ?_⟩
  · have hover : w.Over s.id := ⟨id_le_sessions hfirst hs, absent⟩
    exact ⟨(hover.run later).absent,
      fun input hinput => Bridge.step_of_absent hinput (hover.run later).absent⟩
  · rcases m with _ | injection | injection | _
    case resume | letGo => exact ⟨rfl, Effect.filterMap_sent?_wakes _⟩
    all_goals cases hrelease
  · obtain ⟨s, hs, hid, -⟩ := Bridge.session_of_sent hmem
    refine ⟨s, hs, hid, fun id hinput => ?_⟩
    by_contra hne
    rw [respond, Bridge.step_of_absent hinput (Bridge.session?_eq_none hs (Ne.symm hne))] at hmem
    cases hmem
  · rcases session_cases ht with ⟨s, hs, hid, -⟩ | ⟨-, -, -, rfl⟩
    · exact absurd hid.symm (hnew s hs)
    · refine ⟨fun first hfirst s hs heq => ?_, rfl, rfl, rfl, rfl, rfl, rfl⟩
      exact absurd (heq ▸ id_le_sessions hfirst hs) (Nat.not_succ_le_self _)

/-- The link of the first session is closed while the engine reads storage for its request `x`, and
another debugger makes a request under the same id. -/
def reattach : List Move :=
  reusedId.take 3 ++ [.input (.linkClosed 1), .input (.attach .established),
    .input (.frame 2 ("[\"x\",\"request\",\"\",\x7b\"type\":\"runUntilPc\"," ++
      "\"pc\":7,\"stepId\":\"\"\x7d]").toUTF8.toList)]

theorem run_reattach :
    let w := run (.new .default) reattach
    (∃ s ∈ (run (.new .default) (reusedId.take 3)).bridge.session, s.id = 1) ∧
      w.reads = [openRead] ∧ w.bridge.session? 1 = none ∧
      ∃ s ∈ w.bridge.session, s.id = 2 ∧ s.pending.get? "x" = some .awaitingReply := by
  decide +kernel

theorem legal_reattach : Legal (.new .default) reattach :=
  ⟨allows_of_free rfl rfl rfl, allows_of_free rfl rfl rfl, allows_of_free rfl rfl rfl,
    allows_of_free rfl rfl rfl, allows_of_free rfl rfl rfl, allows_of_free rfl rfl rfl, trivial⟩

theorem sessions_isolated_reattach :
    let w := run (.new .default) reattach
    Legal (.new .default) (reattach ++ [lateRead]) ∧ openRead.request = (1, "x") ∧
      (∃ s ∈ w.bridge.session, s.id = 2 ∧ s.pending.get? "x" = some .awaitingReply) ∧
      w.respond lateRead = (w.bridge, []) := by
  intro w
  obtain ⟨⟨s, hs, hid⟩, hreads, absent, hsecond⟩ := run_reattach
  refine ⟨along_append.2 ⟨legal_reattach, allows_lateRead hreads, trivial⟩, rfl, hsecond, ?_⟩
  exact ((sessions_isolated .default reattach).1 _ s (List.prefix_append _ _) hs
    (hid ▸ absent) []).2 _ (hid ▸ rfl)

end World

end DebugBridge

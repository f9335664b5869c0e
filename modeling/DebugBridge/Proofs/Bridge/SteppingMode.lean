import DebugBridge.Proofs.Bridge.Isolation

/-!
# Bridge/SteppingMode — which messages set the mode of stepping

A new session passes over the steps that nothing flags. The debugger may ask for the other mode in
the content of a message that releases a paused call, and the mode should be the one that the last
such message asked for. The bridge, though, takes over the mode of every message that finds anything
pending under the id of the response that it amounts to (`setsMode?`), be it a paused call or a
request that the debugger itself has made. Both come to the same exactly if no message asks for
another mode where a request of the debugger is pending (`fastStep_follows_resumed_iff`).
-/

namespace DebugBridge

/-! ## One message -/

namespace Session

/-- The mode of stepping that a message asks for, if it finds anything pending. -/
def setsMode? (s : Session) (e : Envelope) : Option Bool :=
  (s.found? e).bind fun _ => (s.response? e).bind (·.content.fastStep?)

/-- The mode of stepping that a message asks for, if it resumes a call. -/
def resumesMode? (s : Session) (e : Envelope) : Option Bool :=
  (s.resumes? e).bind fun (_, response) => response.content.fastStep?

/-- The two differ where the message finds a request of the debugger. -/
theorem resumesMode?_eq (s : Session) (e : Envelope) :
    s.resumesMode? e = if s.found? e = some .awaitingReply then none else s.setsMode? e := by
  rw [resumesMode?, resumes?, setsMode?]
  rcases s.response? e with _ | response
  · simp
  · rcases s.found? e with _ | call | _ <;> rfl

end Session

/-- **The mode of stepping after an input**, if the session goes on. -/
theorem Bridge.fastStep_of_live {b : Bridge} {s t : Session} (hs : b.session = some s)
    {input : Input} (ht : (b.step input).1.session = some t) :
    t.state.fastStep =
      ((b.message? input).bind fun (s, e) => s.setsMode? e).getD s.state.fastStep := by
  rcases state_of_live hs ht with ⟨e, hmessage, hfault, rfl⟩ | ⟨hmessage, hmode, -⟩
  · rw [Session.fastStep_receive hfault, hmessage]
    rfl
  · rw [hmode, hmessage]
    rfl

namespace World

/-! ## One move -/

/-- The mode of stepping that a move takes over. -/
def setsMode? (w : World) (m : Move) : Option Bool :=
  (w.message? m).bind fun (s, e) => s.setsMode? e

/-- The mode of stepping that a move asks for with the release of a paused call. -/
def resumesMode? (w : World) (m : Move) : Option Bool :=
  (w.message? m).bind fun (s, e) => s.resumesMode? e

/-- Whether the mode of stepping after a move is the one that the move brings, if it brings one, and
else the one before, as long as the session goes on. -/
def ModeFollows (brings : World → Move → Option Bool) (w : World) (m : Move) : Prop :=
  ∀ s t, w.bridge.session = some s → (w.step m).bridge.session = some t →
    t.state.fastStep = (brings w m).getD s.state.fastStep

/-- **Whether a move misleads the bridge about the mode of stepping**: its message finds a request
of the debugger, and asks for a mode that is not the one so far. -/
def Misleads (w : World) (m : Move) : Prop :=
  ∃ s e, w.message? m = some (s, e) ∧ s.found? e = some .awaitingReply ∧
    (w.step m).bridge.session.isSome ∧ ∃ mode ∈ s.setsMode? e, mode ≠ s.state.fastStep

theorem modeFollows_setsMode (w : World) (m : Move) : w.ModeFollows setsMode? m := by
  intro s t hs ht
  rcases m with input | _ | _ | _
  case input => exact Bridge.fastStep_of_live hs ht
  all_goals
    obtain rfl := Option.some.inj (hs.symm.trans ht)
    rfl

/-- **A move brings the mode with a release**, or no other than the one so far, unless it
misleads. -/
theorem modeFollows_resumesMode_iff (w : World) (m : Move) :
    w.ModeFollows resumesMode? m ↔ ¬w.Misleads m := by
  rcases hmessage : w.message? m with _ | ⟨s, e⟩
  · have hsame : w.resumesMode? m = w.setsMode? m := by
      rw [resumesMode?, setsMode?, hmessage]
      rfl
    have hnot : ¬w.Misleads m := by
      rintro ⟨s, e, h, -⟩
      cases hmessage.symm.trans h
    refine iff_of_true (fun s t hs ht => ?_) hnot
    rw [hsame]
    exact w.modeFollows_setsMode m s t hs ht
  · have hs := live_of_message? hmessage
    have hsets : w.setsMode? m = s.setsMode? e := by
      rw [setsMode?, hmessage]
      rfl
    have hresumes : w.resumesMode? m =
        if s.found? e = some .awaitingReply then none else s.setsMode? e := by
      rw [resumesMode?, hmessage, ← s.resumesMode?_eq]
      rfl
    constructor
    · rintro follows ⟨s', e', h, hfound, hlive, mode, hmode, hne⟩
      obtain ⟨rfl, rfl⟩ := Prod.mk.inj (Option.some.inj (hmessage.symm.trans h))
      obtain ⟨t, ht⟩ := Option.isSome_iff_exists.1 hlive
      have hsame := follows s t hs ht
      rw [hresumes, if_pos hfound, w.modeFollows_setsMode m s t hs ht, hsets, hmode] at hsame
      exact hne hsame
    · intro hnot s' t hs' ht
      obtain rfl := Option.some.inj (hs.symm.trans hs')
      rw [w.modeFollows_setsMode m s t hs ht, hsets, hresumes]
      split
      · next hfound =>
        rcases hmode : s.setsMode? e with _ | mode
        · rfl
        · by_contra hne
          exact hnot ⟨s, e, hmessage, hfound, Option.isSome_iff_exists.2 ⟨t, ht⟩, mode, hmode, hne⟩
      · rfl

/-! ## Runs -/

/-- What moves bring in a session, one after the other. -/
def history {α : Type} (brings : World → Move → Option α) (id : SessionId) (w : World) :
    List Move → List α
  | [] => []
  | m :: rest =>
    ((w.bridge.session? id).bind fun _ => brings w m).toList ++ history brings id (w.step m) rest

theorem history_concat {α : Type} (brings : World → Move → Option α) (id : SessionId) (w : World)
    (moves : List Move) (m : Move) :
    history brings id w (moves ++ [m]) = history brings id w moves ++
      (((w.run moves).bridge.session? id).bind fun _ => brings (w.run moves) m).toList := by
  induction moves generalizing w with
  | nil => simp [history]
  | cons first rest ih => simp [history, ih]

/-- Nothing was brought in a session that is yet to come. -/
theorem history_eq_nil {α : Type} (brings : World → Move → Option α) {config : Config}
    {moves : List Move} {id : SessionId} (h : (run (.new config) moves).bridge.sessions < id) :
    history brings id (.new config) moves = [] := by
  induction moves using List.reverseRecOn with
  | nil => rfl
  | append_singleton moves m ih =>
    rw [run_concat] at h
    have hbefore := Nat.lt_of_le_of_lt ((run (.new config) moves).sessions_le_step m) h
    have absent : (run (.new config) moves).bridge.session? id = none := by
      rcases hlive : (run (.new config) moves).bridge.session? id with _ | s
      · rfl
      · obtain ⟨hs, rfl⟩ := Bridge.session?_eq_some_iff.1 hlive
        rw [id_eq_sessions config moves s hs] at hbefore
        exact absurd hbefore (Nat.lt_irrefl _)
    rw [history_concat, ih hbefore, absent]
    rfl

/-- Whether the mode of stepping of the live session is the last that was brought in it. -/
def LastMode (brings : World → Move → Option Bool) (config : Config) (moves : List Move) : Prop :=
  ∀ s ∈ (run (.new config) moves).bridge.session,
    s.state.fastStep = (history brings s.id (.new config) moves).getLastD true

section

variable {brings : World → Move → Option Bool} {config : Config} {moves : List Move}

/-- The mode is the last one brought if it was and the move brings it. -/
theorem LastMode.concat_iff (h : LastMode brings config moves) (m : Move) :
    LastMode brings config (moves ++ [m]) ↔ (run (.new config) moves).ModeFollows brings m := by
  have hlast (modes : List Bool) (mode? : Option Bool) :
      (modes ++ mode?.toList).getLastD true = mode?.getD (modes.getLastD true) := by
    rcases mode? with _ | mode <;> simp
  have hsame {s : Session} (hs : (run (.new config) moves).bridge.session = some s) :
      (history brings s.id (.new config) (moves ++ [m])).getLastD true =
        (brings (run (.new config) moves) m).getD s.state.fastStep := by
    rw [history_concat, Bridge.session?_eq_some_iff.2 ⟨hs, rfl⟩, hlast, h s hs]
    rfl
  rw [LastMode, run_concat]
  constructor
  · intro last s t hs ht
    rw [last t ht, ← hsame hs]
    rcases session_cases ht with ⟨s', hs', hid, -⟩ | ⟨hnone, -⟩
    · obtain rfl := Option.some.inj (hs.symm.trans hs')
      rw [hid]
    · cases hnone.symm.trans hs
  · intro follows t ht
    rcases session_cases ht with ⟨s, hs, hid, -⟩ | ⟨hnone, -, -, hstart⟩
    · rw [hid, hsame hs]
      exact follows s t hs ht
    · have hnew : history brings t.id (.new config) moves = [] :=
        history_eq_nil brings (hstart ▸ Nat.lt_succ_self _)
      rw [history_concat, hnew, Bridge.session?, hnone, hstart]
      rfl

/-- **The mode is the last one brought throughout a run** exactly if it follows every move. -/
theorem lastMode_iff : (∀ first, first <+: moves → LastMode brings config first) ↔
    Along (ModeFollows brings) (.new config) moves := by
  induction moves using List.reverseRecOn with
  | nil =>
    refine iff_of_true (fun first hfirst => ?_) trivial
    rw [List.prefix_nil.1 hfirst]
    rintro s ⟨⟩
  | append_singleton moves m ih =>
    rw [along_append, ← ih]
    constructor
    · intro last
      have hbefore : ∀ first, first <+: moves → LastMode brings config first :=
        fun first hfirst => last first (hfirst.trans (List.prefix_append _ _))
      exact ⟨hbefore, ((hbefore moves List.prefix_rfl).concat_iff m).1 (last _ List.prefix_rfl),
        trivial⟩
    · rintro ⟨last, follows, -⟩ first hfirst
      rcases List.prefix_concat_iff.1 hfirst with rfl | hfirst
      · exact ((last moves List.prefix_rfl).concat_iff m).2 follows
      · exact last first hfirst

end

/-- **The mode of stepping follows what is released**, unless the debugger misleads the bridge. The
mode of a session is on when it begins, a move leaves it as it is or takes over the one that a
message asks for which finds anything pending, and so it is the last one taken over in the session.
It is throughout a run the last one that was asked for with the release of a paused call exactly if
no move misleads the bridge. -/
theorem fastStep_follows_resumed_iff (config : Config) (moves : List Move) :
    let w := run (.new config) moves
    (∀ m t, w.bridge.session = none → (w.step m).bridge.session = some t →
      t.state.fastStep = true) ∧
    (∀ m s t, w.bridge.session = some s → (w.step m).bridge.session = some t →
      t.state.fastStep = (w.setsMode? m).getD s.state.fastStep) ∧
    (∀ s ∈ w.bridge.session,
      s.state.fastStep = (history setsMode? s.id (.new config) moves).getLastD true) ∧
    ((∀ first, first <+: moves → ∀ s ∈ (run (.new config) first).bridge.session,
        s.state.fastStep = (history resumesMode? s.id (.new config) first).getLastD true) ↔
      Along (fun w m => ¬w.Misleads m) (.new config) moves) := by
  intro w
  refine ⟨fun m t hnone ht => ?_, w.modeFollows_setsMode, ?_, ?_⟩
  · rcases session_cases ht with ⟨s, hs, -⟩ | ⟨-, -, -, rfl⟩
    · cases hnone.symm.trans hs
    · rfl
  · exact lastMode_iff.2 (along_of_forall modeFollows_setsMode) moves List.prefix_rfl
  · have hmisleads : ModeFollows resumesMode? = fun w m => ¬w.Misleads m :=
      funext fun w => funext fun m => propext (w.modeFollows_resumesMode_iff m)
    rw [← hmisleads]
    exact lastMode_iff

/-- A debugger asks to run up to a program counter and to stop at every step, and names its own
request as the paused step to go on from. -/
def ownStepId : List Move :=
  [.input (.attach .established),
    .input (.frame 1 ("[\"x\",\"request\",\"\",\x7b\"type\":\"runUntilPc\"," ++
      "\"pc\":7,\"stepId\":\"x\",\"fastStep\":false\x7d]").toUTF8.toList)]

/-- **A mode of stepping that no release asked for**: nothing was ever paused, and steps that
nothing flags are no longer passed over. -/
theorem fastStep_off_unreleased :
    let w := run (.new .default) ownStepId
    Legal (.new .default) ownStepId ∧ w.bridge.calls = 0 ∧
      history resumesMode? 1 (.new .default) ownStepId = [] ∧
      ∃ s ∈ w.bridge.session, s.id = 1 ∧ s.state.fastStep = false :=
  ⟨⟨allows_of_free rfl rfl rfl, allows_of_free rfl rfl rfl, trivial⟩, by decide +kernel⟩

end World

end DebugBridge

import DebugBridge.Proofs.Pending
import DebugBridge.Proofs.Session.Replies

/-!
# Session/Handling — what a message of the debugger comes to

Requests come in many kinds, but a session does only four things with one (`Handled`): it answers at
once, it has the engine read storage, it hands the engine an injection, or it runs up to a program
counter. In the first case the table of what is pending ends as it began, since the entry of the
request is gone with the answer.

The operations that a turn is made of are described one by one, each by what is pending under the
id it is about.
-/

namespace DebugBridge

/-- Whether the only thing that can have gone wrong in a turn is that the link takes no frames. -/
def Turn.Sound (t : Turn) : Prop :=
  t.fault = none ∨ t.fault = some (.transport .sendFailed)

namespace Turn

theorem andThen_of_none {t : Turn} (h : t.fault = none) (next : Session → Turn) :
    t.andThen next = { next t.session with effects := t.effects ++ (next t.session).effects } := by
  rw [andThen, h]

theorem andThen_of_some {t : Turn} {fault : BridgeError} (h : t.fault = some fault)
    (next : Session → Turn) : t.andThen next = t := by
  rw [andThen, h]

theorem fault_of_andThen {t : Turn} {next : Session → Turn}
    (h : (t.andThen next).fault = none) : t.fault = none := by
  rcases hfault : t.fault with _ | fault
  · rfl
  · rw [andThen_of_some hfault, hfault] at h
    cases h

end Turn

/-- The mode of stepping that a content asks for, if it does. -/
def Content.fastStep? (content : Content) : Option Bool :=
  content.field? "fastStep" >>= Item.flag?

namespace Session

/-- The session with an entry for a request of the debugger. -/
def awaiting (s : Session) (id : RequestId) : Session :=
  { s with pending := ⟨s.pending.entries.insert id .awaitingReply⟩ }

/-- The session without the entry under an id. -/
def without (s : Session) (id : RequestId) : Session :=
  { s with pending := ⟨s.pending.entries.erase id⟩ }

/-- Whether a session is another one after the debugger has set something up in it. -/
def SetUp (s t : Session) : Prop :=
  ∃ breakpoints jumpDestinations declarations,
    t = { s with state := { s.state with breakpoints, jumpDestinations, declarations } }

theorem SetUp.refl (s : Session) : s.SetUp s :=
  ⟨_, _, _, rfl⟩

/-! ## Operations -/

/-- Answering drops the entry under the id, whatever it is. -/
theorem reply_of_some {s : Session} {id : RequestId} {held : Continuation}
    (h : s.pending.get? id = some held) (content : Content) :
    s.reply id content =
      let turn := (s.without id).send (.response id content)
      { turn with effects := (held.settle .released).map Wake.effect ++ turn.effects } := by
  rw [reply, Pending.drop_of_some h]
  rfl

theorem reply_of_none {s : Session} {id : RequestId} (h : s.pending.get? id = none)
    (content : Content) : s.reply id content = s.send (.response id content) := by
  rw [reply, Pending.drop_of_none h]
  rfl

/-- A request that is answered at once leaves no trace in the table. -/
theorem reply_awaiting {s : Session} {id : RequestId} (h : s.pending.get? id = none)
    (content : Content) : (s.awaiting id).reply id content = s.send (.response id content) := by
  have hheld : (s.awaiting id).pending.get? id = some .awaitingReply := by simp [awaiting]
  have hwithout : (s.awaiting id).without id = s := by
    rw [without, awaiting]
    simp only [Pending.erase_insert h]
  rw [reply_of_some hheld, hwithout]
  rfl

theorem release_of_none {s : Session} {response : Envelope}
    (h : s.pending.get? response.id = none) : s.release response = s.idle := by
  rw [release, Pending.resolve?, Pending.take?_of_none h]
  rfl

theorem applyFastStep_eq (s : Session) (content : Content) :
    s.applyFastStep content =
      { s with state :=
        { s.state with fastStep := content.fastStep?.getD s.state.fastStep } } := by
  rw [applyFastStep, Content.fastStep?]
  rcases content.field? "fastStep" >>= Item.flag? <;> rfl

theorem release_of_some {s : Session} {response : Envelope} {held : Continuation}
    (h : s.pending.get? response.id = some held) :
    s.release response =
      ⟨{ s.without response.id with
          state := { s.state with fastStep := response.content.fastStep?.getD s.state.fastStep } },
        (held.settle (.resumed response)).map Wake.effect, none⟩ := by
  rw [release, Pending.resolve?, Pending.take?_of_some h, Option.map_some]
  dsimp only
  rw [applyFastStep_eq]
  rfl

/-- A step reaches the target of a run, and the answer can be sent. -/
theorem reachTarget_of_frame {s : Session} {id : RequestId} {content : Content} {frame : Frame}
    (h : s.frame (.response id content) = .ok frame) (call : CallId) :
    s.reachTarget call id content =
      ⟨{ s with
          state := { s.state with runUntil := none }
          pending := ⟨s.pending.entries.insert id (.resume call)⟩ },
        .send s.id frame ::
          ((s.pending.get? id).toList.flatMap (·.settle .released)).map Wake.effect, none⟩ := by
  have hframe : Session.frame { s with state := { s.state with runUntil := none } }
      (.response id content) = .ok frame := h
  rw [reachTarget]
  dsimp only
  rw [send, hframe]
  rfl

/-- **What asking the debugger comes to**: the call waits under a free id, or nothing changes. -/
theorem forward_cases (s : Session) (call : CallId) (id : RequestId) (trigger : String)
    (content : Content) :
    (s.pending.get? id = none ∧ ∃ frame : Frame, frame.envelope = .request id trigger content ∧
      s.forward call id trigger content =
        ⟨{ s with pending := ⟨s.pending.entries.insert id (.resume call)⟩ }, [.send s.id frame],
          none⟩) ∨
      ∃ fault, (fault.OfSending ∨ fault = .duplicateRequest id) ∧
        s.forward call id trigger content = ⟨s, [], some fault⟩ := by
  rcases h : s.pending.get? id with _ | held
  · rw [forward, Pending.register_of_none h]
    dsimp only
    rcases send_cases { s with pending := ⟨s.pending.entries.insert id (.resume call)⟩ }
      (.request id trigger content) with ⟨frame, hframe, hsend⟩ | ⟨fault, hfault, hsend⟩
    · rw [hsend]
      exact Or.inl ⟨rfl, frame, hframe, rfl⟩
    · have hheld : (⟨s.pending.entries.insert id (.resume call)⟩ : Pending).get? id =
          some (.resume call) := by simp
      rw [hsend]
      dsimp only
      rw [Pending.drop_of_some hheld, Pending.erase_insert h]
      exact Or.inr ⟨fault, Or.inl hfault, rfl⟩
  · rw [forward, Pending.register_of_some h]
    exact Or.inr ⟨_, Or.inr rfl, rfl⟩

/-- **What a step at the target of a run comes to.** The run is over in any case; the call waits
under its id if the answer is sent. -/
theorem reachTarget_cases (s : Session) (call : CallId) (id : RequestId) (content : Content) :
    (∃ frame : Frame, frame.envelope = .response id content ∧
      s.reachTarget call id content =
        ⟨{ s with
            state := { s.state with runUntil := none }
            pending := ⟨s.pending.entries.insert id (.resume call)⟩ },
          .send s.id frame ::
            ((s.pending.get? id).toList.flatMap (·.settle .released)).map Wake.effect, none⟩) ∨
      ∃ fault, fault.OfSending ∧
        s.reachTarget call id content =
          ⟨{ s with state := { s.state with runUntil := none } }, [], some fault⟩ := by
  rw [reachTarget]
  dsimp only
  rcases send_cases { s with state := { s.state with runUntil := none } } (.response id content)
    with ⟨frame, hframe, h⟩ | ⟨fault, hfault, h⟩
  · rw [h]
    exact Or.inl ⟨frame, hframe, rfl⟩
  · rw [h]
    exact Or.inr ⟨fault, hfault, rfl⟩

/-- **What an injection comes to**: it takes along the call that waits under the id it names. -/
theorem inject_cases (s : Session) (id : RequestId) (stepId : Option RequestId)
    (content : Content) :
    (∃ k call, stepId = some k ∧ s.pending.get? k = some (.resume call) ∧
      s.inject id stepId content =
        ⟨s.without k, [.inject ⟨s.id, id, stepId, content, some call⟩], none⟩) ∨
      (∀ k ∈ stepId, ∀ call, s.pending.get? k ≠ some (.resume call)) ∧
        s.inject id stepId content =
          ⟨s, [.inject ⟨s.id, id, stepId, content, none⟩], none⟩ := by
  rcases stepId with _ | k
  · exact Or.inr ⟨by simp, rfl⟩
  · rcases h : s.pending.get? k with _ | call | _
    · rw [inject, Option.bind_some, Pending.take?_of_none h]
      exact Or.inr ⟨by simp [h], rfl⟩
    · rw [inject, Option.bind_some, Pending.take?_of_some h]
      exact Or.inl ⟨k, call, rfl, h, rfl⟩
    · rw [inject, Option.bind_some, Pending.take?_of_some h]
      exact Or.inr ⟨by simp [h], rfl⟩

/-! ## Requests -/

/-- **What a request of the debugger comes to.** -/
inductive Handled (s : Session) (request : Envelope) : Turn → Prop
  | answered {t : Session} {content : Content} : s.SetUp t → content.Flat →
    Handled s request (t.send (.response request.id content))
  | reading (address : Address) (slot : StorageWord) : s.pending.get? request.id = none →
    Handled s request
      ⟨s.awaiting request.id, [.readStorage ⟨s.id, request.id, address, slot⟩], none⟩
  | injecting (stepId : Option RequestId) : s.pending.get? request.id = none →
    Command.ofContent request.content = .ok (.injectNewCode stepId) →
    Handled s request ((s.awaiting request.id).inject request.id stepId request.content)
  | running (stepId : RequestId) (pc : UInt64) : s.pending.get? request.id = none →
    Command.ofContent request.content = .ok (.runUntilPc stepId pc) →
    Handled s request ((s.awaiting request.id).runUntil request.id stepId pc request.content)

theorem Handled.replied {s t : Session} {request : Envelope} (h : s.pending.get? request.id = none)
    (ht : s.SetUp t) {content : Content} (hflat : content.Flat) :
    Handled s request ((t.awaiting request.id).reply request.id content) := by
  have hpending : t.pending.get? request.id = none := by
    obtain ⟨breakpoints, jumpDestinations, declarations, rfl⟩ := ht
    exact h
  rw [reply_awaiting hpending]
  exact .answered ht hflat

/-- Carrying out a command is one of the four things. -/
theorem handled_obey {s : Session} {request : Envelope} (h : s.pending.get? request.id = none)
    (mode : ScopeMode) (hasEngine : Bool) {command : Command}
    (hcommand : Command.ofContent request.content = .ok command) :
    Handled s request
      ((s.awaiting request.id).obey mode hasEngine request.id request.content command) := by
  have hreply {content : Content} (hflat : content.Flat) :
      Handled s request ((s.awaiting request.id).reply request.id content) :=
    .replied h (.refl s) hflat
  rcases command with stepId | ⟨key, slot⟩ | ⟨breakpoint, address, pc, enabled, runtime⟩ |
    ⟨address, pcs⟩ | ⟨address, pcs⟩ | ⟨stepId, pc⟩ | _ | _
  · rw [obey]
    split
    · exact .injecting stepId h hcommand
    · exact hreply (Reply.flat_message _)
  · rw [obey]
    split
    · exact hreply (Reply.flat_message _)
    · split
      · exact hreply (Reply.flat_error _)
      · exact .reading _ slot h
  · rcases enabled
    · exact .replied h ⟨_, _, _, rfl⟩ (Reply.flat_message _)
    · rcases pc with _ | pc
      · exact hreply (Reply.flat_error _)
      · exact .replied h ⟨_, _, _, rfl⟩ (Reply.flat_message _)
  · exact .replied h ⟨_, _, _, rfl⟩ (Reply.flat_message _)
  · exact .replied h ⟨_, _, _, rfl⟩ (Reply.flat_message _)
  · exact .running stepId pc h hcommand
  · exact hreply (Reply.flat_message _)
  · exact hreply (Reply.flat_message _)

theorem handled (s : Session) (mode : ScopeMode) (hasEngine : Bool) (request : Envelope) :
    Handled s request (s.handle mode hasEngine request) := by
  rcases h : s.pending.get? request.id with _ | held
  · rw [handle, Pending.register_of_none h]
    dsimp only
    rcases hcommand : Command.ofContent request.content with fault | command
    · exact .replied h (.refl s) (Reply.flat_error _)
    · exact handled_obey h mode hasEngine hcommand
  · rw [handle, Pending.register_of_some h]
    exact .answered (.refl s) (Reply.flat_error _)

/-! ## What can go wrong -/

theorem sound_send (s : Session) {e : Envelope} (h : e.content.Flat) : (s.send e).Sound := by
  rcases s.send_flat h with ⟨frame, -, hsend⟩ | hsend
  · exact hsend ▸ Or.inl rfl
  · exact hsend ▸ Or.inr rfl

theorem sound_reply (s : Session) (id : RequestId) {content : Content} (h : content.Flat) :
    (s.reply id content).Sound :=
  sound_send { s with pending := (s.pending.drop id).1 } (e := .response id content) h

theorem fault_release (s : Session) (response : Envelope) : (s.release response).fault = none := by
  unfold release
  split <;> rfl

theorem fault_inject (s : Session) (id : RequestId) (stepId : Option RequestId)
    (content : Content) : (s.inject id stepId content).fault = none := by
  unfold inject
  split <;> rfl

/-- An answer is not sent when the link takes no frames. -/
theorem fault_reply_of_deaf {s : Session} (h : s.accepting = false) (id : RequestId)
    (content : Content) : (s.reply id content).fault.isSome :=
  fault_send_of_deaf (s := { s with pending := (s.pending.drop id).1 }) h (.response id content)

theorem sound_runUntil (s : Session) (id stepId : RequestId) (pc : UInt64) (content : Content) :
    (s.runUntil id stepId pc content).Sound := by
  have hnext (t : Turn) (h : t.Sound) (response : Envelope) :
      (t.andThen fun s => s.release response).Sound := by
    rw [Turn.andThen]
    rcases hfault : t.fault with _ | fault
    · exact Or.inl (fault_release _ _)
    · exact h
  refine hnext _ ?_ _
  rcases s.state.runUntil with _ | previous
  · exact Or.inl rfl
  · exact sound_reply _ _ (Reply.flat_error _)

/-- **Nothing that a debugger asks for ends its session**, as long as the link takes frames. -/
theorem Handled.sound {s : Session} {request : Envelope} {t : Turn} (h : Handled s request t) :
    t.Sound := by
  rcases h with ⟨-, hflat⟩ | ⟨address, slot, -⟩ | ⟨stepId, -⟩ | ⟨stepId, pc, -, -⟩
  · exact sound_send _ hflat
  · exact Or.inl rfl
  · exact Or.inl (fault_inject _ _ _ _)
  · exact sound_runUntil _ _ _ _ _

end Session

end DebugBridge

import DebugBridge.Proofs.Session.Table

/-!
# Session/Messages — what a message of the debugger asks for

A request asks for something only if it is **accepted**: its id is not pending, and its command is
in shape. Three of the things that a message can ask for concern what is paused. It may amount to a
response to an id (`response?`), have the engine take over the call that waits under an id
(`handover?`), or begin a run up to a program counter (`begins?`); whatever else it asks for leaves
all calls waiting (`Received`).

A message that amounts to a response does one thing after the other. If it begins a run, the run
under way is answered (`before`); then what is pending under the id of the response (`found?`) is
continued.
-/

namespace DebugBridge

namespace Session

/-! ## Accepted requests -/

/-- The command of a request that is accepted. -/
def accepted? (s : Session) (e : Envelope) : Option Command :=
  match e.type, s.pending.get? e.id with
  | .request, none => (Command.ofContent e.content).toOption
  | _, _ => none

theorem accepted?_eq_some_iff {s : Session} {e : Envelope} {command : Command} :
    s.accepted? e = some command ↔
      e.type = .request ∧ s.pending.get? e.id = none ∧
        Command.ofContent e.content = .ok command := by
  rw [accepted?]
  rcases e.type
  · rcases s.pending.get? e.id with _ | held
    · rcases Command.ofContent e.content with fault | other <;> simp [Except.toOption]
    · simp
  · simp

/-- **The response that a message amounts to**: itself, or the content of a new run for the paused
step that the run names. -/
def response? (s : Session) (e : Envelope) : Option Envelope :=
  match e.type, s.accepted? e with
  | .response, _ => some e
  | .request, some (.runUntilPc stepId _) => some (.response stepId e.content)
  | _, _ => none

/-- The id under which a call waits that a message has the engine take over. -/
def handover? (s : Session) (hasEngine : Bool) (e : Envelope) : Option RequestId :=
  if hasEngine then
    match s.accepted? e with
    | some (.injectNewCode stepId) => stepId
    | _ => none
  else none

/-- The run that a message begins. -/
def begins? (s : Session) (e : Envelope) : Option RunUntil :=
  match s.accepted? e with
  | some (.runUntilPc _ pc) => some ⟨e.id, pc⟩
  | _ => none

/-- Whether a message asks for nothing that concerns what is paused. -/
structure Plain (s : Session) (hasEngine : Bool) (e : Envelope) : Prop where
  response : s.response? e = none
  handover : s.handover? hasEngine e = none
  begins : s.begins? e = none

/-- **What a message of the debugger comes to.** -/
inductive Received (s : Session) (hasEngine : Bool) (e : Envelope) : Turn → Prop
  | responding : e.type = .response → Received s hasEngine e (s.release e)
  | running (stepId : RequestId) (pc : UInt64) :
    s.accepted? e = some (.runUntilPc stepId pc) →
    Received s hasEngine e ((s.awaiting e.id).runUntil e.id stepId pc e.content)
  | injecting (stepId : Option RequestId) : s.accepted? e = some (.injectNewCode stepId) →
    hasEngine = true →
    Received s hasEngine e ((s.awaiting e.id).inject e.id stepId e.content)
  | answered {t : Session} {content : Content} : s.SetUp t → s.Plain hasEngine e →
    Received s hasEngine e (t.send (.response e.id content))
  | reading (address : Address) (slot : StorageWord) : s.pending.get? e.id = none →
    s.Plain hasEngine e →
    Received s hasEngine e ⟨s.awaiting e.id, [.readStorage ⟨s.id, e.id, address, slot⟩], none⟩

section

variable {s : Session} {e : Envelope} {hasEngine : Bool}

theorem response?_of_response (htype : e.type = .response) : s.response? e = some e := by
  rw [response?, htype]

theorem begins?_of_response (htype : e.type = .response) : s.begins? e = none := by
  rw [begins?, accepted?, htype]

theorem response?_of_running {stepId : RequestId} {pc : UInt64}
    (h : s.accepted? e = some (.runUntilPc stepId pc)) :
    s.response? e = some (.response stepId e.content) := by
  rw [response?, (accepted?_eq_some_iff.1 h).1, h]

/-- A request for an injection is no response and begins no run. -/
theorem response?_of_injecting {stepId : Option RequestId}
    (h : s.accepted? e = some (.injectNewCode stepId)) :
    s.response? e = none ∧ s.begins? e = none := by
  rw [response?, begins?, (accepted?_eq_some_iff.1 h).1, h]
  exact ⟨rfl, rfl⟩

theorem handover?_of_injecting {stepId : Option RequestId}
    (h : s.accepted? e = some (.injectNewCode stepId)) : s.handover? true e = stepId := by
  rw [handover?, if_pos rfl, h]

/-- A message that amounts to a response has the engine take over nothing. -/
theorem handover?_of_response? {response : Envelope} (h : s.response? e = some response) :
    s.handover? hasEngine e = none := by
  rw [handover?]
  split
  · split
    · next stepId haccepted =>
      rw [(response?_of_injecting haccepted).1] at h
      cases h
    · rfl
  · rfl

theorem begins?_of_running {stepId : RequestId} {pc : UInt64}
    (h : s.accepted? e = some (.runUntilPc stepId pc)) : s.begins? e = some ⟨e.id, pc⟩ := by
  rw [begins?, h]

/-- What amounts to no response begins no run. -/
theorem begins?_of_none (h : s.response? e = none) : s.begins? e = none := by
  rw [begins?]
  split
  · next stepId pc haccepted =>
    rw [response?_of_running haccepted] at h
    cases h
  · rfl

/-- A request that neither begins a run nor is one for an injection. -/
theorem plain_of_accepted? (htype : e.type = .request)
    (hrun : ∀ stepId pc, s.accepted? e ≠ some (.runUntilPc stepId pc))
    (hinject : ∀ stepId, s.accepted? e = some (.injectNewCode stepId) → hasEngine = false) :
    s.Plain hasEngine e where
  response := by
    rw [response?, htype]
    split
    · next heq => cases heq
    · next stepId pc _ h => exact absurd h (hrun stepId pc)
    · rfl
  handover := by
    rw [handover?]
    split
    · next hengine =>
      split
      · next stepId h => cases hengine.symm.trans (hinject stepId h)
      · rfl
    · rfl
  begins := by
    rw [begins?]
    split
    · next stepId pc h => exact absurd h (hrun stepId pc)
    · rfl

/-- A request for an injection is handed on, or answered when there is no engine. -/
theorem handle_injectNewCode {stepId : Option RequestId}
    (h : s.accepted? e = some (.injectNewCode stepId)) (mode : ScopeMode) :
    s.handle mode hasEngine e =
      if hasEngine then (s.awaiting e.id).inject e.id stepId e.content
      else s.send (.response e.id (Reply.message Reply.noEngine)) := by
  obtain ⟨-, hget, hcommand⟩ := accepted?_eq_some_iff.1 h
  rw [handle, Pending.register_of_none hget]
  dsimp only
  rw [hcommand]
  dsimp only
  rw [obey]
  split
  · rfl
  · exact reply_awaiting hget _

/-- A request that is refused or asks for another command. -/
theorem received_plain (htype : e.type = .request)
    (hrun : ∀ stepId pc, s.accepted? e ≠ some (.runUntilPc stepId pc))
    (hinject : ∀ stepId, s.accepted? e ≠ some (.injectNewCode stepId)) (mode : ScopeMode) :
    Received s hasEngine e (s.handle mode hasEngine e) := by
  have hplain : s.Plain hasEngine e :=
    plain_of_accepted? htype hrun fun stepId h => absurd h (hinject stepId)
  have h := s.handled mode hasEngine e
  generalize s.handle mode hasEngine e = turn at h ⊢
  rcases h with ⟨hsetUp, -⟩ | ⟨address, slot, hget⟩ | ⟨stepId, hget, hcommand⟩ |
    ⟨stepId, pc, hget, hcommand⟩
  · exact .answered hsetUp hplain
  · exact .reading address slot hget hplain
  · exact absurd (accepted?_eq_some_iff.2 ⟨htype, hget, hcommand⟩) (hinject stepId)
  · exact absurd (accepted?_eq_some_iff.2 ⟨htype, hget, hcommand⟩) (hrun stepId pc)

end

theorem received (s : Session) (mode : ScopeMode) (hasEngine : Bool) (e : Envelope) :
    Received s hasEngine e (s.receive mode hasEngine e) := by
  rw [receive]
  rcases htype : e.type
  · dsimp only
    by_cases hrun : ∃ stepId pc, s.accepted? e = some (.runUntilPc stepId pc)
    · obtain ⟨stepId, pc, h⟩ := hrun
      obtain ⟨-, hget, hcommand⟩ := accepted?_eq_some_iff.1 h
      rw [handle_runUntilPc hget hcommand]
      exact .running stepId pc h
    by_cases hinject : ∃ stepId, s.accepted? e = some (.injectNewCode stepId)
    · obtain ⟨stepId, h⟩ := hinject
      rw [handle_injectNewCode h]
      split
      · next hengine => exact .injecting stepId h hengine
      · next hnone =>
        refine .answered (.refl s) (plain_of_accepted? htype (by simp [h]) fun _ _ => ?_)
        simpa using hnone
    · exact received_plain htype (by simpa using hrun) (by simpa using hinject) mode
  · exact .responding htype

/-! ## What is answered first -/

/-- A new run, up to the point at which the one under way is answered. -/
def supersede (s : Session) (run : RunUntil) : Turn :=
  let started : Session := { s with state := { s.state with runUntil := some run } }
  match s.state.runUntil with
  | some previous => started.reply previous.id (Reply.error Reply.superseded)
  | none => started.idle

theorem runUntil_eq (s : Session) (id stepId : RequestId) (pc : UInt64) (content : Content) :
    s.runUntil id stepId pc content =
      (s.supersede ⟨id, pc⟩).andThen fun t => t.release (.response stepId content) := rfl

theorem state_reply (s : Session) (id : RequestId) (content : Content) :
    (s.reply id content).session.state = s.state := by
  rw [session_reply]

theorem state_supersede (s : Session) (run : RunUntil) :
    (s.supersede run).session.state = { s.state with runUntil := some run } := by
  rw [supersede]
  rcases s.state.runUntil with _ | previous
  · rfl
  · exact state_reply _ _ _

theorem get?_supersede (s : Session) (run : RunUntil) (k : RequestId) :
    (s.supersede run).session.pending.get? k = if k ∈ s.dues then none else s.pending.get? k := by
  rw [supersede, dues]
  rcases s.state.runUntil with _ | previous
  · rfl
  · have hget := get?_reply { s with state := { s.state with runUntil := some run } } previous.id
      (Reply.error Reply.superseded) k
    simpa using hget

/-- Entering a request of the debugger makes no call wait. -/
theorem resume_of_awaiting {s : Session} {id k : RequestId} {call : CallId}
    (h : (s.awaiting id).pending.get? k = some (.resume call)) :
    s.pending.get? k = some (.resume call) := by
  rw [get?_awaiting] at h
  split at h
  · cases h
  · exact h

/-- What comes before the response that a message amounts to: a run that it begins takes the place
of the one under way. -/
def before (s : Session) (e : Envelope) : Turn :=
  match s.begins? e with
  | some run => (s.awaiting e.id).supersede run
  | none => s.idle

/-- A call that waits by then has waited before. -/
theorem resume_of_before {s : Session} {e : Envelope} {id : RequestId} {call : CallId}
    (h : (s.before e).session.pending.get? id = some (.resume call)) :
    s.pending.get? id = some (.resume call) := by
  rw [before] at h
  rcases hbegins : s.begins? e with _ | run
  · rw [hbegins] at h
    exact h
  · rw [hbegins] at h
    dsimp only at h
    rw [get?_supersede] at h
    split at h
    · cases h
    · exact resume_of_awaiting h

/-- **What a message finds** pending under the id of the response that it amounts to, when it comes
to the response. -/
def found? (s : Session) (e : Envelope) : Option Continuation :=
  (s.response? e).bind fun response => (s.before e).session.pending.get? response.id

/-- A call that is found has waited under the id. -/
theorem get?_of_found? {s : Session} {e response : Envelope} (h : s.response? e = some response)
    {call : CallId} (hfound : s.found? e = some (.resume call)) :
    s.pending.get? response.id = some (.resume call) := by
  rw [found?, h, Option.bind_some] at hfound
  exact resume_of_before hfound

/-- **A message that amounts to a response** continues what it finds, after what comes before. -/
theorem receive_of_response? {s : Session} {e response : Envelope}
    (h : s.response? e = some response) (mode : ScopeMode) (hasEngine : Bool) :
    s.receive mode hasEngine e = (s.before e).andThen fun t => t.release response := by
  rw [before]
  have hreceived := s.received mode hasEngine e
  generalize s.receive mode hasEngine e = turn at hreceived ⊢
  rcases hreceived with htype | ⟨stepId, pc, haccepted⟩ | ⟨stepId, haccepted, -⟩ | ⟨-, hplain⟩ |
    ⟨address, slot, -, hplain⟩
  · obtain rfl := Option.some.inj ((response?_of_response htype).symm.trans h)
    rw [begins?_of_response htype]
    exact (congrArg (fun effects => Turn.mk _ effects _) (List.nil_append _).symm :)
  · obtain rfl := Option.some.inj ((response?_of_running haccepted).symm.trans h)
    rw [begins?_of_running haccepted]
    exact runUntil_eq _ _ _ _ _
  · rw [(response?_of_injecting haccepted).1] at h
    cases h
  · rw [hplain.response] at h
    cases h
  · rw [hplain.response] at h
    cases h

end Session

end DebugBridge

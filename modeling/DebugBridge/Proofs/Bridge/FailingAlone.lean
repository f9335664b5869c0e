import DebugBridge.Proofs.Bridge.Messages
import DebugBridge.Proofs.Wire.Unlimited

/-!
# Bridge/FailingAlone — what fails without a trace

A request of the debugger can be **refused** (`Refuses`), and what the engine reports or asks may be
too deep to be written. Either fails alone: the debugger gets an error, or the call returns with
one, and the world is as it was (`Unchanged`) but for its past. Both have been entered in the table
by the time they fail, so what is shown is that the entry is taken back and nothing else with it.
-/

namespace DebugBridge

/-! ## Refused requests -/

namespace Reply

/-- The reason why a request is refused that only an engine can serve. -/
def withoutEngine : String := "no EVM attached"

theorem message_noEngine : message noEngine = error withoutEngine :=
  congrArg message (by decide)

end Reply

/-- **Why a command is refused**, if it is. -/
def Command.refusal? (hasEngine : Bool) : Command → Option String
  | .injectNewCode _ => if hasEngine then none else some Reply.withoutEngine
  | .getStorage key _ =>
    if !hasEngine then some Reply.withoutEngine
    else if key.address?.isNone then some (Reply.invalidAddress key) else none
  | .sendBreakpoint _ _ none true _ => some (ShapeFault.missingField "pc").message
  | _ => none

namespace Session

/-- **Why a request of the debugger is refused**, if it is. -/
def refusal? (s : Session) (hasEngine : Bool) (e : Envelope) : Option String :=
  if s.pending.contains e.id then some Reply.duplicateId
  else
    match Command.ofContent e.content with
    | .error fault => some fault.message
    | .ok command => command.refusal? hasEngine

/-- **Whether a session refuses a request of the debugger.** -/
inductive Refuses (s : Session) (hasEngine : Bool) (e : Envelope) : Prop
  /-- A request of either side under its id has no answer yet. -/
  | pending {held : Continuation} : s.pending.get? e.id = some held → Refuses s hasEngine e
  /-- Its content is no command. -/
  | malformed {fault : WireError} : Command.ofContent e.content = .error fault →
    Refuses s hasEngine e
  /-- It enables a breakpoint nowhere. -/
  | nowhere {id : BreakpointId} {address : AddressKey} {runtime : Option Bool} :
    Command.ofContent e.content = .ok (.sendBreakpoint id address none true runtime) →
    Refuses s hasEngine e
  /-- It asks for the storage of what is no address. -/
  | unaddressed {key : AddressKey} {slot : StorageWord} :
    Command.ofContent e.content = .ok (.getStorage key slot) → key.address? = none →
    Refuses s hasEngine e
  /-- It asks for storage, and there is no engine. -/
  | unread {key : AddressKey} {slot : StorageWord} :
    Command.ofContent e.content = .ok (.getStorage key slot) → hasEngine = false →
    Refuses s hasEngine e
  /-- It swaps code, and there is no engine. -/
  | uninjected {stepId : Option RequestId} :
    Command.ofContent e.content = .ok (.injectNewCode stepId) → hasEngine = false →
    Refuses s hasEngine e

section

variable {s : Session} {e : Envelope} {hasEngine : Bool}

/-- A content with a name under `type` that unfolds into no tree is no command. -/
theorem refuses_of_cycle (htype : (e.content.field? "type" >>= Item.text?).isSome)
    (h : e.content.toJson? = none) : s.Refuses hasEngine e := by
  obtain ⟨type, htype⟩ := Option.isSome_iff_exists.1 htype
  have hcommand : Command.ofContent e.content = .error .cycle := by
    rw [Command.ofContent, htype, h]
  exact .malformed hcommand

theorem refusal?_of_none (h : s.pending.get? e.id = none) :
    s.refusal? hasEngine e =
      match Command.ofContent e.content with
      | .error fault => some fault.message
      | .ok command => command.refusal? hasEngine := by
  rw [refusal?, if_neg (by simp [Pending.contains_eq, h])]

theorem refusal?_of_some {held : Continuation} (h : s.pending.get? e.id = some held) :
    s.refusal? hasEngine e = some Reply.duplicateId := by
  rw [refusal?, if_pos (by simp [Pending.contains_eq, h])]

/-- **A request that is refused is refused for a reason.** -/
theorem Refuses.exists_refusal? (h : s.Refuses hasEngine e) :
    ∃ reason, s.refusal? hasEngine e = some reason := by
  rcases hget : s.pending.get? e.id with _ | held
  · rw [refusal?_of_none hget]
    rcases h with hheld | hcommand | hcommand | ⟨hcommand, haddress⟩ | ⟨hcommand, rfl⟩ |
      ⟨hcommand, rfl⟩
    case pending => cases hget.symm.trans hheld
    case unaddressed =>
      rw [hcommand]
      dsimp only [Command.refusal?]
      rw [haddress]
      rcases hasEngine <;> exact ⟨_, rfl⟩
    all_goals
      rw [hcommand]
      exact ⟨_, rfl⟩
  · exact ⟨_, refusal?_of_some hget⟩

/-- A command that is refused is answered with the reason. -/
theorem obey_of_refusal? {command : Command} {reason : String}
    (h : command.refusal? hasEngine = some reason) (mode : ScopeMode) (id : RequestId)
    (content : Content) :
    s.obey mode hasEngine id content command = s.reply id (Reply.error reason) := by
  rcases command with stepId | ⟨key, slot⟩ | ⟨breakpoint, address, pc, enabled, runtime⟩ |
    _ | _ | _ | _ | _
  case injectNewCode =>
    rcases hasEngine
    · obtain rfl := Option.some.inj h
      exact congrArg (s.reply id) Reply.message_noEngine
    · cases h
  case getStorage =>
    rcases hasEngine
    · obtain rfl := Option.some.inj h
      exact congrArg (s.reply id) Reply.message_noEngine
    · rw [obey]
      rw [Command.refusal?] at h
      rcases haddress : key.address? with _ | account
      · rw [haddress] at h
        obtain rfl := Option.some.inj h
        rfl
      · rw [haddress] at h
        cases h
  case sendBreakpoint =>
    rcases enabled
    · rcases pc <;> cases h
    · rcases pc with _ | pc
      · obtain rfl := Option.some.inj h
        rfl
      · cases h
  all_goals cases h

/-- **A request that is refused is answered with the reason**, and its entry is taken back. -/
theorem handle_of_refusal? {reason : String} (h : s.refusal? hasEngine e = some reason)
    (mode : ScopeMode) :
    s.handle mode hasEngine e = s.send (.response e.id (Reply.error reason)) := by
  rcases hget : s.pending.get? e.id with _ | held
  · rw [refusal?_of_none hget] at h
    rw [handle, Pending.register_of_none hget]
    dsimp only
    rcases hcommand : Command.ofContent e.content with fault | command
    · rw [hcommand] at h
      obtain rfl := Option.some.inj h
      exact reply_awaiting hget _
    · rw [hcommand] at h
      exact (obey_of_refusal? h mode e.id e.content).trans (reply_awaiting hget _)
  · rw [refusal?_of_some hget] at h
    obtain rfl := Option.some.inj h
    rw [handle, Pending.register_of_some hget]

end

end Session

/-! ## Nothing but the past -/

/-- Whether a move ends nothing that is under way, and nobody stops to wait. -/
structure Move.EndsNothing (m : Move) : Prop where
  read : m.read? = none
  offer : m.offer? = none
  release : m.release? = none
  cancelled : m.cancelled? = none

/-- A call of the engine ends nothing. -/
theorem Move.endsNothing_of_made? {m : Move} {id : RequestId} (h : m.made? = some id) :
    m.EndsNothing := by
  rcases m with input | _ | _ | _
  case input =>
    rcases input with _ | _ | _ | _ | _ | _ | _ | _ | _ | _ | _ | _ | _
    case report | request => exact ⟨rfl, rfl, rfl, rfl⟩
    all_goals cases h
  all_goals cases h

theorem Move.EndsNothing.allows {m : Move} (h : m.EndsNothing) (w : World) : w.Allows m :=
  World.allows_of_free h.read h.offer h.release

namespace World

/-- A message ends nothing. -/
theorem endsNothing_of_message? {w : World} {m : Move} {s : Session} {e : Envelope}
    (h : w.message? m = some (s, e)) : m.EndsNothing := by
  rcases m with input | _ | _ | _
  case input =>
    obtain ⟨-, h⟩ := Bridge.message?_eq_some_iff.1 h
    rcases input with _ | _ | _ | _ | _ | _ | _ | _ | _ | _ | _ | _ | _
    case frame => exact ⟨rfl, rfl, rfl, rfl⟩
    all_goals cases h
  all_goals cases h

/-- **Whether two worlds differ in their past only**: the bridge is the same but for the number of
calls, the engine has the same to do, and the same calls wait with the same holders. -/
structure Unchanged (w v : World) : Prop where
  bridge : v.bridge = { w.bridge with calls := v.bridge.calls }
  reads : v.reads = w.reads
  offers : v.offers = w.offers
  kept : v.kept = w.kept
  waits : ∀ call, v.Waits call ↔ w.Waits call
  holds : ∀ holder call, v.Holds holder call ↔ w.Holds holder call

/-- Who holds what is read off the session and what the engine keeps. -/
theorem holds_congr {w v : World} (session : v.bridge.session = w.bridge.session)
    (kept : v.kept = w.kept) (holder : Holder) (call : CallId) :
    v.Holds holder call ↔ w.Holds holder call := by
  rcases holder with id | index
  · rw [Holds, Holds, session]
  · rw [Holds, Holds, kept]

/-- **A move without consequences**: it asks the engine for nothing, and what it makes calls of
returns at once. -/
theorem unchanged_step {w : World} {m : Move} (ends : m.EndsNothing)
    (bridge : (w.respond m).1 = { w.bridge with calls := (w.respond m).1.calls })
    (reads : (w.respond m).2.filterMap Effect.read? = [])
    (injections : (w.respond m).2.filterMap Effect.injection? = [])
    (returns : ∀ call,
      call < (w.respond m).1.calls ∧ call ∉ ((w.respond m).2.filterMap Effect.return?).map (·.1) ↔
        call < w.bridge.calls) :
    w.Unchanged (w.step m) := by
  have hkept : (w.step m).kept = w.kept := by
    rw [kept_step, injections, ends.release]
    exact List.append_nil _
  have hsession : (w.step m).bridge.session = w.bridge.session := by rw [bridge_step, bridge]
  refine ⟨bridge, ?_, ?_, hkept, fun call => ?_, holds_congr hsession hkept⟩
  · rw [reads_step, reads, ends.read]
    exact List.append_nil _
  · show m.offer?.elim w.offers w.offers.erase ++ (w.respond m).2.filterMap Effect.injection? = _
    rw [injections, ends.offer]
    exact List.append_nil _
  · have hcancelled : (w.step m).cancelled = w.cancelled := by
      rw [cancelled_step, ends.cancelled]
      exact List.append_nil _
    have hreturns := returns call
    rw [Waits, Waits, hcancelled, returned_step, List.map_append, List.mem_append, bridge_step,
      ← hreturns]
    tauto

/-- What a session does with a message that reaches it the bridge does. -/
theorem respond_of_message? {w : World} {m : Move} {s : Session} {e : Envelope}
    (h : w.message? m = some (s, e)) :
    w.respond m = w.bridge.settle (s.receive w.bridge.config.scopeMode w.bridge.hasEngine e) := by
  rcases m with input | _ | _ | _
  case input => exact Bridge.step_of_job? (live_of_message? h) (Bridge.job?_of_message? h)
  all_goals cases h

/-- **A refused request fails alone.** The debugger gets one answer under the id of the request, an
error whose message gives the reason; the engine is asked for nothing, and the world is as it
was. -/
theorem unchanged_of_refused {w : World} {m : Move} {s : Session} {e : Envelope}
    (brought : w.message? m = some (s, e)) (request : e.type = .request)
    (accepts : s.accepting = true) (refused : s.Refuses w.bridge.hasEngine e) :
    ∃ reason frame, s.refusal? w.bridge.hasEngine e = some reason ∧
      frame.envelope = .response e.id (Reply.error reason) ∧
      frame.envelope.content.field? "message" = some (.string ("Error: " ++ reason)) ∧
      w.respond m = (w.bridge, [.send s.id frame]) ∧ w.Unchanged (w.step m) := by
  obtain ⟨reason, hreason⟩ := refused.exists_refusal?
  obtain ⟨frame, henvelope, hsend⟩ := Session.exists_send_of_accepting accepts
    (e := .response e.id (Reply.error reason)) (Reply.flat_error reason)
  have hrespond : w.respond m = (w.bridge, [.send s.id frame]) := by
    rw [respond_of_message? brought, Session.receive, request]
    dsimp only
    rw [Session.handle_of_refusal? hreason, hsend]
    have hsame : { w.bridge with session := some s } = w.bridge := by
      rw [← live_of_message? brought]
    exact congrArg (·, _) hsame
  have hmessage : frame.envelope.content.field? "message" = some (.string ("Error: " ++ reason)) := by
    rw [henvelope]
    exact Reply.field?_error reason
  refine ⟨reason, frame, hreason, henvelope, hmessage, hrespond,
    unchanged_step (endsNothing_of_message? brought) ?_ ?_ ?_ ?_⟩ <;> rw [hrespond]
  · rfl
  · rfl
  · exact fun call => and_iff_left List.not_mem_nil

/-- A request with a content that holds itself, as it is written. -/
def cyclicPingBytes : List UInt8 :=
  ("[\"y\",\"request\",\"\",\x7b\"type\":\"ping\"," ++
    "\"self\":\x7b\"$ref\":\"\"\x7d\x7d]").toUTF8.toList

/-- The debugger asks with it whether the bridge is there. -/
def cyclicPing : Move :=
  .input (.frame 1 cyclicPingBytes)

theorem message?_cyclicPing {w : World} {s : Session} (hs : w.bridge.session = some s)
    (hid : s.id = 1) :
    ∃ e, w.message? cyclicPing = some (s, e) ∧ e.type = .request ∧ e.id = "y" ∧
      s.Refuses w.bridge.hasEngine e := by
  have hdecode : ∃ message ∈ Input.message? (.frame 1 cyclicPingBytes), message.1 = 1 ∧
      message.2.type = .request ∧ message.2.id = "y" ∧
      (message.2.content.field? "type" >>= Item.text?).isSome ∧
      message.2.content.toJson? = none := by decide +kernel
  obtain ⟨⟨_, e⟩, hmessage, rfl, htype, hy, hnamed, hcycle⟩ := hdecode
  exact ⟨e, Bridge.message?_eq_some_iff.2 ⟨hs, hid ▸ hmessage⟩, htype, hy,
    Session.refuses_of_cycle hnamed hcycle⟩

theorem unchanged_of_refused_cyclicPing :
    let w := run (.new .default) (reusedId ++ [reachTarget])
    Legal (.new .default) (reusedId ++ [reachTarget] ++ [cyclicPing]) ∧
    (∃ reason frame, frame.envelope = .response "y" (Reply.error reason) ∧
      w.respond cyclicPing = (w.bridge, [.send 1 frame])) ∧
    (w.step cyclicPing).Waits 0 := by
  intro w
  have parked : w.ParkedOverRead true := parkedOverRead
  obtain ⟨s, hlive, accepts, -⟩ := parked.session
  obtain ⟨hs, hid⟩ := Bridge.session?_eq_some_iff.1 hlive
  obtain ⟨e, brought, request, hy, refused⟩ := message?_cyclicPing hs hid
  obtain ⟨reason, frame, -, henvelope, -, hrespond, unchanged⟩ :=
    unchanged_of_refused brought request accepts refused
  exact ⟨along_append.2 ⟨legal_parkedOverRead, allows_of_free rfl rfl rfl, trivial⟩,
    ⟨reason, frame, hy ▸ henvelope, hid ▸ hrespond⟩, (unchanged.waits 0).2 parked.waits⟩

/-! ## What cannot be written -/

/-- **What cannot be written fails alone.** When the engine reports or asks what has to go to the
debugger under a new id and cannot be written, the call returns at once with the reason, which is
that the content nests too deep; no frame is sent, and the world is as it was. Whoever only tells
the debugger of something makes no use of how the call returns. -/
theorem unchanged_of_unwritable {w : World} {s : Session} (live : w.bridge.session = some s)
    {input : Input} {id : RequestId} {trigger : String} {content : Content}
    (asks : w.bridge.asks? s input = some (id, trigger, content))
    (fresh : s.pending.get? id = none) (unwritable : ∀ value, content.encode ≠ .ok value) :
    w.respond (.input input) =
        (w.bridge.calling,
          [.finish w.bridge.calls (.failed (.wire (.tooDeep (Wire.maxDepth + 1))))]) ∧
      w.Unchanged (w.step (.input input)) := by
  have hcontent : content.encode = .error (.tooDeep (Wire.maxDepth + 1)) := by
    rcases hencode : content.encode with fault | value
    · rw [Content.encode_error hencode]
    · exact absurd hencode (unwritable value)
  have hrespond : w.respond (.input input) = _ :=
    Bridge.step_unwritable live (Bridge.job?_of_asks? asks) fresh hcontent
  refine ⟨hrespond, unchanged_step (Move.endsNothing_of_made? (Bridge.made?_of_asks? asks))
    ?_ ?_ ?_ ?_⟩ <;> rw [hrespond]
  · rfl
  · rfl
  · rfl
  · intro call
    show call < w.bridge.calls + 1 ∧ call ∉ [w.bridge.calls] ↔ call < w.bridge.calls
    rw [List.mem_singleton]
    omega

theorem unchanged_of_unwritable_running :
    let w := run (.new .default) running
    let m : Move := .input (.report (.exception deep) "a")
    Legal (.new .default) (running ++ [m]) ∧ w.Unchanged (w.step m) ∧
      (w.respond m).2 = [.finish 0 (.failed (.wire (.tooDeep 1281)))] := by
  intro w m
  obtain ⟨hcalls, s, live, -, -, fresh⟩ := run_running
  have asks : w.bridge.asks? s (.report (.exception deep) "a") =
      some ("a", Trigger.exception, deep) := rfl
  obtain ⟨hrespond, unchanged⟩ := unchanged_of_unwritable live asks fresh
    fun value hvalue => by cases hvalue.symm.trans encode_deep
  refine ⟨along_append.2 ⟨legal_running, allows_of_free rfl rfl rfl, trivial⟩, unchanged, ?_⟩
  rw [hrespond, hcalls]
  rfl

end World

end DebugBridge

import DebugBridge.Proofs.Bridge.FailingAlone
import DebugBridge.Proofs.Content.Cycles
import DebugBridge.Proofs.Content.Setting

/-!
# Bridge/Acknowledging — commands that the bridge does not know

A request may name a command that the bridge does not know, or none. It is acknowledged, and nothing
comes of it, if its content is no more than looked at for the name. But a content with a name is
unfolded before it is known whether the command is, and a cycle leaves it without a tree
(`Content.Readable`). So what is not known is acknowledged exactly where it can be read, and refused
for its cycle where it cannot (`acknowledged_iff`).
-/

namespace DebugBridge

namespace Content

/-- The name of the command that a content asks for, if it has one. -/
def commandName? (c : Content) : Option String :=
  c.field? "type" >>= Item.text?

/-- **Whether a request with this content can be read**: it unfolds into a tree, or it has no name
and is not unfolded. -/
def Readable (c : Content) : Prop :=
  c.Cyclic → c.commandName? = none

end Content

namespace Command

/-- The names of the commands that are known. -/
def names : List String :=
  ["injectNewCode", "getStorage", "sendBreakpoint", "sendDeclarations", "sendJumpDestinations",
    "runUntilPc", "ping"]

variable {type : String} {c : Content}

/-- A command with another name is not known, whatever its members are. -/
theorem ofMembers_of_not_mem_names (h : type ∉ names) (members : List (String × Json)) :
    ofMembers type members = .ok .unknown := by
  unfold ofMembers
  split
  case h_8 => rfl
  all_goals exact absurd (by decide) h

theorem ofContent_of_not_readable (h : ¬ c.Readable) : ofContent c = .error .cycle := by
  obtain ⟨hcyclic, hname⟩ := Classical.not_imp.1 h
  obtain ⟨type, htype⟩ := Option.ne_none_iff_exists'.1 hname
  rw [ofContent, show (c.field? "type" >>= Item.text?) = some type from htype,
    Content.toJson?_eq_none_iff.2 hcyclic]

/-- **What is not known is read as such exactly where it can be read.** -/
theorem ofContent_eq_unknown_iff (h : ∀ name ∈ c.commandName?, name ∉ names) :
    ofContent c = .ok .unknown ↔ c.Readable := by
  constructor
  · intro hunknown
    by_contra hnot
    rw [ofContent_of_not_readable hnot] at hunknown
    cases hunknown
  · intro hreadable
    rcases hname : c.commandName? with _ | type
    · rw [ofContent, show (c.field? "type" >>= Item.text?) = none from hname]
    -- With a name there is a tree, and it does not matter what it is.
    · rw [ofContent, show (c.field? "type" >>= Item.text?) = some type from hname]
      have hacyclic : ¬ c.Cyclic := by
        intro hcyclic
        rw [hreadable hcyclic] at hname
        cases hname
      dsimp only
      split
      · next hnone => exact absurd (Content.toJson?_eq_none_iff.1 hnone) hacyclic
      · next members _ =>
        rw [ofMembers_of_not_mem_names (h type hname) members]
        rfl
      · rfl

end Command

/-! ## Answers -/

namespace Reply

variable {a b : String}

theorem message_inj : message a = message b ↔ a = b := by
  refine ⟨fun h => ?_, fun h => h ▸ rfl⟩
  have hfield := congrArg (Content.field? · "message") h
  simpa only [field?_message, Option.some.injEq, Item.string.injEq] using hfield

/-- An acknowledgement is no error. -/
theorem message_ok_ne_error (reason : String) : message ok ≠ error reason := by
  intro h
  have hlength := congrArg String.length (message_inj.1 h)
  rw [String.length_append] at hlength
  have : ok.length = 2 ∧ "Error: ".length = 7 := by decide
  omega

end Reply

namespace Session

variable {s : Session} {e : Envelope}

/-- A request whose command is not known is acknowledged, if its id is free. -/
theorem handle_of_unknown (hfree : s.pending.get? e.id = none)
    (h : Command.ofContent e.content = .ok .unknown) (mode : ScopeMode) (hasEngine : Bool) :
    s.handle mode hasEngine e = s.send (.response e.id (Reply.message Reply.ok)) := by
  rw [handle, Pending.register_of_none hfree]
  dsimp only
  rw [h]
  exact reply_awaiting hfree _

/-- **A request that names no known command** is answered and no more: with the acknowledgement if
its id is free and it can be read, and otherwise with an error. -/
theorem exists_handle_of_not_named (h : ∀ name ∈ e.content.commandName?, name ∉ Command.names)
    (mode : ScopeMode) (hasEngine : Bool) :
    ∃ reply : Content, reply.Flat ∧
      s.handle mode hasEngine e = s.send (.response e.id reply) ∧
      (reply = Reply.message Reply.ok ↔ s.pending.get? e.id = none ∧ e.content.Readable) ∧
      (s.pending.get? e.id = none → ¬ e.content.Readable →
        reply = Reply.error WireError.cycle.message) := by
  rcases hget : s.pending.get? e.id with _ | held
  · by_cases hreadable : e.content.Readable
    · have hunknown := (Command.ofContent_eq_unknown_iff h).2 hreadable
      exact ⟨_, Reply.flat_message _, handle_of_unknown hget hunknown mode hasEngine,
        iff_of_true rfl ⟨rfl, hreadable⟩, fun _ hnot => absurd hreadable hnot⟩
    · have hrefusal : s.refusal? hasEngine e = some WireError.cycle.message := by
        rw [refusal?_of_none hget, Command.ofContent_of_not_readable hreadable]
      exact ⟨_, Reply.flat_error _, handle_of_refusal? hrefusal mode,
        iff_of_false (Reply.message_ok_ne_error _).symm fun hboth => hreadable hboth.2,
        fun _ _ => rfl⟩
  · refine ⟨_, Reply.flat_error _, handle_of_refusal? (refusal?_of_some hget) mode,
      iff_of_false (Reply.message_ok_ne_error _).symm ?_, ?_⟩
    · rintro ⟨hnone, -⟩
      cases hnone
    · intro hnone
      cases hnone

end Session

namespace World

variable {w : World} {m : Move} {s : Session} {e : Envelope} {reply : Content}

/-- **A request that is no more than answered** leaves the world as it was. -/
theorem exists_answer (brought : w.message? m = some (s, e)) (request : e.type = .request)
    (accepts : s.accepting = true) (flat : reply.Flat)
    (handled : s.handle w.bridge.config.scopeMode w.bridge.hasEngine e =
      s.send (.response e.id reply)) :
    ∃ frame, frame.envelope = .response e.id reply ∧
      w.respond m = (w.bridge, [.send s.id frame]) ∧ w.Unchanged (w.step m) := by
  obtain ⟨frame, henvelope, hsend⟩ := Session.exists_send_of_accepting accepts
    (e := .response e.id reply) flat
  have hrespond : w.respond m = (w.bridge, [.send s.id frame]) := by
    have hsame : { w.bridge with session := some s } = w.bridge := by
      rw [← live_of_message? brought]
    rw [respond_of_message? brought, Session.receive, request]
    dsimp only
    rw [handled, hsend]
    exact congrArg (·, _) hsame
  refine ⟨frame, henvelope, hrespond,
    unchanged_step (endsNothing_of_message? brought) ?_ ?_ ?_ ?_⟩ <;> rw [hrespond]
  · rfl
  · rfl
  · exact fun call => and_iff_left List.not_mem_nil

/-- **What is not known is acknowledged exactly where it can be read.** A content that names no
known command is read as a command that is not known, unless it has a name and a cycle, which is an
error. Whenever a request with this content comes over a link that takes frames, it gets one answer
and the world is as it was. The answer is the acknowledgement if the id of the request is free and
its content can be read, and an error otherwise, which gives the cycle as its reason if the id is
free. -/
theorem acknowledged_iff {c : Content} (unknown : ∀ name ∈ c.commandName?, name ∉ Command.names) :
    (Command.ofContent c = .ok .unknown ↔ c.Readable) ∧
    (¬ c.Readable → Command.ofContent c = .error .cycle) ∧
    ∀ (w : World) (m : Move) (s : Session) (e : Envelope), w.message? m = some (s, e) →
      e.type = .request → e.content = c → s.accepting = true →
      ∃ reply frame, frame.envelope = .response e.id reply ∧
        w.respond m = (w.bridge, [.send s.id frame]) ∧ w.Unchanged (w.step m) ∧
        (reply = Reply.message Reply.ok ↔ s.pending.get? e.id = none ∧ c.Readable) ∧
        (s.pending.get? e.id = none → ¬ c.Readable →
          reply = Reply.error WireError.cycle.message) := by
  refine ⟨Command.ofContent_eq_unknown_iff unknown, Command.ofContent_of_not_readable, ?_⟩
  rintro w m s e brought request rfl accepts
  obtain ⟨reply, flat, handled, hok, hcycle⟩ := s.exists_handle_of_not_named unknown
    w.bridge.config.scopeMode w.bridge.hasEngine
  obtain ⟨frame, hframe, hrespond, hunchanged⟩ :=
    exists_answer brought request accepts flat handled
  exact ⟨reply, frame, hframe, hrespond, hunchanged, hok, hcycle⟩

/-- A request for a step over an instruction, whose arguments share a part. -/
def stepOverBytes : List UInt8 :=
  ("[\"y\",\"request\",\"\",\x7b\"type\":\"stepOver\"," ++
    "\"from\":[7],\"to\":\x7b\"$ref\":\"/from\"\x7d\x7d]").toUTF8.toList

theorem acknowledged_iff_stepOver :
    let w := run (.new .default) [.input (.attach .established)]
    let m := Move.input (.frame 1 stepOverBytes)
    ∃ s e frame, w.message? m = some (s, e) ∧ e.content.commandName? = some "stepOver" ∧
      "stepOver" ∉ Command.names ∧ frame.envelope = .response "y" (Reply.message Reply.ok) ∧
      w.respond m = (w.bridge, [.send 1 frame]) ∧ w.Unchanged (w.step m) := by
  intro w m
  have hsession : ∃ s ∈ w.bridge.session, s.id = 1 ∧ s.accepting = true ∧
      s.pending.get? "y" = none := by decide +kernel
  have hdecode : ∃ message ∈ Input.message? (.frame 1 stepOverBytes), message.1 = 1 ∧
      message.2.type = .request ∧ message.2.id = "y" ∧
      message.2.content.commandName? = some "stepOver" ∧
      Command.ofContent message.2.content = .ok .unknown := by decide +kernel
  obtain ⟨s, hs, hid, accepts, hfree⟩ := hsession
  obtain ⟨⟨_, e⟩, hmessage, rfl, request, hy, hname, hcommand⟩ := hdecode
  have brought : w.message? m = some (s, e) := Bridge.message?_eq_some_iff.2 ⟨hs, hid ▸ hmessage⟩
  have hnot : "stepOver" ∉ Command.names := by decide
  have unknown : ∀ name ∈ e.content.commandName?, name ∉ Command.names := by
    intro name h
    obtain rfl := Option.some.inj (hname.symm.trans h)
    exact hnot
  obtain ⟨hiff, -, hanswers⟩ := acknowledged_iff unknown
  obtain ⟨reply, frame, hframe, hrespond, hunchanged, hreply, -⟩ :=
    hanswers w m s e brought request rfl accepts
  have hok : reply = Reply.message Reply.ok := hreply.2 ⟨hy ▸ hfree, hiff.1 hcommand⟩
  exact ⟨s, e, frame, brought, hname, hnot, hok ▸ hy ▸ hframe, hid ▸ hrespond, hunchanged⟩

/-- A request for a step over an instruction that holds itself. -/
def cyclicStepOverBytes : List UInt8 :=
  ("[\"y\",\"request\",\"\",\x7b\"type\":\"stepOver\"," ++
    "\"self\":\x7b\"$ref\":\"\"\x7d\x7d]").toUTF8.toList

/-- **A command that is not known and is refused**, because its content holds itself. -/
theorem refused_cyclicStepOver :
    let w := run (.new .default) [.input (.attach .established)]
    let m := Move.input (.frame 1 cyclicStepOverBytes)
    ∃ message ∈ Input.message? (.frame 1 cyclicStepOverBytes),
      message.2.type = .request ∧ message.2.content.commandName? = some "stepOver" ∧
      "stepOver" ∉ Command.names ∧ Command.ofContent message.2.content = .error .cycle ∧
      (w.respond m).2.filterMap Effect.sent? =
        [(1, .response "y" (Reply.error WireError.cycle.message))] := by
  decide +kernel

end World

end DebugBridge

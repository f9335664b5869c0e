import DebugBridge.Proofs.Session.Faults
import DebugBridge.Proofs.Session.Messages

/-!
# Session/Sending — what an operation sends

An operation that sends a message sends nothing else, and a turn that is cut short sends nothing
(`Turn.Sends`). Requests go out only when the engine asks; whatever a debugger brings about with a
message of its own is sent as a response (`response_of_sent_receive`).
-/

namespace DebugBridge

namespace Effect

/-- The message that goes to the debugger of a session. -/
def sent? : Effect → Option (SessionId × Envelope)
  | .send session frame => some (session, frame.envelope)
  | _ => none

@[simp] theorem filterMap_sent?_wakes (wakes : List Wake) :
    (wakes.map Wake.effect).filterMap sent? = [] :=
  filterMap_wakes (fun _ _ => rfl) wakes

/-- The answers are the responses among the messages. -/
theorem filterMap_answer?_eq (effects : List Effect) :
    effects.filterMap answer? = (effects.filterMap sent?).filterMap fun (session, e) =>
      if e.type = .response then some (session, e.id) else none := by
  rw [List.filterMap_filterMap]
  refine congrArg (effects.filterMap ·) (funext fun effect => ?_)
  rcases effect with ⟨session, frame⟩ | _ | _ | _
  case send =>
    show answer? (.send session frame) = if frame.envelope.type = .response then _ else none
    rw [answer?]
    rcases frame.envelope.type <;> rfl
  all_goals rfl

end Effect

/-- The messages that a turn sends. -/
def Turn.sent (t : Turn) : List (SessionId × Envelope) :=
  t.effects.filterMap Effect.sent?

/-- **Whether a turn sends a message**, and nothing else, unless it is cut short. -/
def Turn.Sends (t : Turn) (s : Session) (e : Envelope) : Prop :=
  t.sent = if t.fault = none then [(s.id, e)] else []

theorem Turn.Sends.eq_of_mem {t : Turn} {s : Session} {e : Envelope} (h : t.Sends s e)
    {message : SessionId × Envelope} (hmem : message ∈ t.sent) : message = (s.id, e) := by
  rw [h] at hmem
  split at hmem
  · exact List.mem_singleton.1 hmem
  · cases hmem

namespace Session

theorem sends_send (s : Session) (e : Envelope) : (s.send e).Sends s e := by
  rcases s.send_cases e with ⟨frame, rfl, h⟩ | ⟨fault, -, h⟩ <;> rw [h] <;> rfl

theorem sends_reply (s : Session) (id : RequestId) (content : Content) :
    (s.reply id content).Sends s (.response id content) := by
  have hsent : (s.reply id content).sent =
      (send { s with pending := (s.pending.drop id).1 } (.response id content)).sent := by
    rw [reply, Turn.sent]
    dsimp only
    rw [List.filterMap_append, Effect.filterMap_sent?_wakes]
    rfl
  exact hsent.trans (sends_send { s with pending := (s.pending.drop id).1 } _)

theorem sends_forward (s : Session) (call : CallId) (id : RequestId) (trigger : String)
    (content : Content) :
    (s.forward call id trigger content).Sends s (.request id trigger content) := by
  rcases s.forward_cases call id trigger content with ⟨-, frame, hframe, h⟩ | ⟨fault, -, h⟩
  · rw [h, ← hframe]
    rfl
  · rw [h]
    rfl

theorem sends_reachTarget (s : Session) (call : CallId) (id : RequestId) (content : Content) :
    (s.reachTarget call id content).Sends s (.response id content) := by
  rcases s.reachTarget_cases call id content with ⟨frame, hframe, h⟩ | ⟨fault, -, h⟩
  · rw [h, ← hframe]
    exact congrArg ((s.id, frame.envelope) :: ·) (Effect.filterMap_sent?_wakes _)
  · rw [h]
    rfl

theorem sent_release (s : Session) (response : Envelope) : (s.release response).sent = [] := by
  rcases h : s.pending.get? response.id with _ | held
  · rw [release_of_none h]
    rfl
  · rw [release_of_some h]
    exact Effect.filterMap_sent?_wakes _

/-- A new run answers the one that is under way. -/
theorem sends_supersede {s : Session} {previous : RunUntil} (h : s.state.runUntil = some previous)
    (run : RunUntil) :
    (s.supersede run).Sends s (.response previous.id (Reply.error Reply.superseded)) := by
  rw [supersede, h]
  exact sends_reply { s with state := { s.state with runUntil := some run } } _ _

theorem sent_andThen_release (t : Turn) (response : Envelope) :
    (t.andThen fun s => s.release response).sent = t.sent := by
  rcases hfault : t.fault with _ | fault
  · rw [Turn.andThen_of_none hfault, Turn.sent, List.filterMap_append]
    exact (congrArg (t.sent ++ ·) (sent_release _ _)).trans (List.append_nil _)
  · rw [Turn.andThen_of_some hfault]

/-- **Messages of a debugger are answered with responses** to it. -/
theorem response_of_sent_receive {s : Session} {mode : ScopeMode} {hasEngine : Bool} {e : Envelope}
    {message : SessionId × Envelope} (hmem : message ∈ (s.receive mode hasEngine e).sent) :
    message.1 = s.id ∧ message.2.type = .response := by
  have h := s.received mode hasEngine e
  generalize s.receive mode hasEngine e = turn at h hmem
  rcases h with htype | ⟨stepId, pc, -⟩ | ⟨stepId, -, -⟩ | ⟨hsetUp, -⟩ | ⟨address, slot⟩
  · rw [sent_release] at hmem
    cases hmem
  · rw [runUntil_eq, sent_andThen_release] at hmem
    rcases hprevious : (s.awaiting e.id).state.runUntil with _ | previous
    · rw [supersede, hprevious] at hmem
      cases hmem
    · rw [(sends_supersede hprevious _).eq_of_mem hmem]
      exact ⟨rfl, rfl⟩
  · rcases (s.awaiting e.id).inject_cases e.id stepId e.content with ⟨k, call, -, -, h⟩ | ⟨-, h⟩ <;>
      rw [h] at hmem <;> cases hmem
  · obtain ⟨breakpoints, jumpDestinations, declarations, rfl⟩ := hsetUp
    rw [(sends_send _ _).eq_of_mem hmem]
    exact ⟨rfl, rfl⟩
  · cases hmem

/-- Nothing keeps a new run from answering the one under way while the link takes frames. -/
theorem fault_supersede {s : Session} (haccepting : s.accepting = true) (run : RunUntil) :
    (s.supersede run).fault = none := by
  rw [supersede]
  rcases s.state.runUntil with _ | previous
  · rfl
  · rcases sound_reply { s with state := { s.state with runUntil := some run } } previous.id
      (Reply.flat_error Reply.superseded) with hnone | hfailed
    · exact hnone
    · rw [deaf_of_reply hfailed] at haccepting
      cases haccepting

section

variable {s : Session} {e : Envelope} {run : RunUntil} (hbegins : s.begins? e = some run)

include hbegins

/-- A message that begins a run amounts to a response, before which the new run is set up. -/
theorem receive_of_begins? (mode : ScopeMode) (hasEngine : Bool) :
    ∃ response, s.receive mode hasEngine e =
      ((s.awaiting e.id).supersede run).andThen fun t => t.release response := by
  have hbefore : s.before e = (s.awaiting e.id).supersede run := by rw [before, hbegins]
  rcases hresponse : s.response? e with _ | response
  · rw [begins?_of_none hresponse] at hbegins
    cases hbegins
  · exact ⟨response, hbefore ▸ receive_of_response? hresponse mode hasEngine⟩

theorem fault_receive_of_begins? (mode : ScopeMode) (hasEngine : Bool) :
    (s.receive mode hasEngine e).fault = ((s.awaiting e.id).supersede run).fault := by
  obtain ⟨response, h⟩ := receive_of_begins? hbegins mode hasEngine
  rw [h]
  rcases hfault : ((s.awaiting e.id).supersede run).fault with _ | fault
  · rw [Turn.andThen_of_none hfault]
    exact fault_release _ _
  · rw [Turn.andThen_of_some hfault, hfault]

/-- **A message that begins a run** answers the run under way. -/
theorem sends_receive_of_begins? {previous : RunUntil}
    (hprevious : s.state.runUntil = some previous) (mode : ScopeMode) (hasEngine : Bool) :
    (s.receive mode hasEngine e).Sends s
      (.response previous.id (Reply.error Reply.superseded)) := by
  obtain ⟨response, h⟩ := receive_of_begins? hbegins mode hasEngine
  rw [Turn.Sends, fault_receive_of_begins? hbegins, h, sent_andThen_release]
  exact sends_supersede (s := s.awaiting e.id) hprevious run

end

end Session

end DebugBridge

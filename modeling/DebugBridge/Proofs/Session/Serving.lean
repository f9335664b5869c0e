import DebugBridge.Bridge.Basic
import DebugBridge.Proofs.Bridge.World
import DebugBridge.Proofs.Session.Handling

/-!
# Session/Serving — what a turn does with the requests of the debugger

A request is in the hands of a session until it is **served**: answered, or handed on to the engine
as a read of storage or an injection. The one request that stays in its hands after the turn that
brought it is the one to run up to a program counter. So a turn balances (`Turn.Serves`): what was
brought, with what was in hand before, is what was served, with what is in hand after.
-/

namespace DebugBridge

/-- The request that an effect serves. -/
def Effect.serves? : Effect → Option (SessionId × RequestId)
  | .readStorage read => some read.request
  | .inject injection => some injection.request
  | effect => effect.answer?

@[simp] theorem Effect.filterMap_serves?_wakes (wakes : List Wake) :
    (wakes.map Wake.effect).filterMap serves? = [] :=
  filterMap_wakes (fun _ _ => rfl) wakes

/-- The requests that a session has in hand. -/
def Session.dues (s : Session) : List RequestId :=
  s.state.runUntil.toList.map (·.id)

/-- What a turn serves. -/
def Turn.served (t : Turn) : List (SessionId × RequestId) :=
  t.effects.filterMap Effect.serves?

/-- **The balance of a turn** that starts in a session and is brought some requests. What a turn cut
short has done is not in balance, but it serves requests of its own session only. -/
structure Turn.Serves (t : Turn) (s : Session) (brought : List RequestId) : Prop where
  id_eq : t.session.id = s.id
  balance : ∃ served : List RequestId, t.served = served.map (Prod.mk s.id) ∧
    (t.fault = none → (brought ++ s.dues).Perm (served ++ t.session.dues))

/-- A turn that neither serves a request nor takes one in hand. -/
structure Turn.Quiet (t : Turn) (s : Session) : Prop where
  id_eq : t.session.id = s.id
  dues_eq : t.session.dues = s.dues
  served_eq : t.served = []

theorem Turn.Quiet.serves {t : Turn} {s : Session} (h : t.Quiet s) : t.Serves s [] :=
  ⟨h.id_eq, [], h.served_eq, fun _ => by rw [h.dues_eq]⟩

/-- What is pending is of no matter to the balance. -/
theorem Turn.Serves.congr {t : Turn} {s s' : Session} {brought : List RequestId}
    (h : t.Serves s' brought) (hid : s'.id = s.id) (hdues : s'.dues = s.dues) :
    t.Serves s brought :=
  ⟨h.id_eq.trans hid, hid ▸ hdues ▸ h.balance⟩

/-- Neither are the calls that return. -/
theorem Turn.Serves.woken {t : Turn} {s : Session} {brought : List RequestId}
    (h : t.Serves s brought) (wakes : List Wake) :
    Turn.Serves { t with effects := wakes.map Wake.effect ++ t.effects } s brought := by
  obtain ⟨served, hserved, hperm⟩ := h.balance
  refine ⟨h.id_eq, served, ?_, hperm⟩
  rw [Turn.served, List.filterMap_append, Effect.filterMap_serves?_wakes]
  exact hserved

/-- Turns one after the other balance if each does. -/
theorem Turn.Serves.andThen {t : Turn} {s : Session} {brought : List RequestId}
    (h : t.Serves s brought) {next : Session → Turn}
    (hnext : t.fault = none → (next t.session).Serves t.session []) :
    (t.andThen next).Serves s brought := by
  rw [Turn.andThen]
  rcases hfault : t.fault with _ | fault
  · obtain ⟨served, hserved, hperm⟩ := h.balance
    obtain ⟨later, hlater, hrest⟩ := (hnext hfault).balance
    refine ⟨(hnext hfault).id_eq.trans h.id_eq, served ++ later, ?_, fun hnone => ?_⟩
    · rw [Turn.served, List.filterMap_append, ← Turn.served, ← Turn.served, hserved, hlater,
        h.id_eq, List.map_append]
    · rw [List.append_assoc]
      exact (hperm hfault).trans ((hrest hnone).append_left served)
  · exact h

namespace Session

/-! ## Answers -/

theorem serves_send (s : Session) (id : RequestId) (content : Content) :
    (s.send (.response id content)).Serves s [id] := by
  rcases s.send_cases (.response id content) with ⟨frame, hframe, h⟩ | ⟨fault, -, h⟩
  · have hserves : Effect.serves? (.send s.id frame) = some (s.id, id) := by
      simp only [Effect.serves?, Effect.answer?, hframe]
      rfl
    refine h ▸ ⟨rfl, [id], ?_, fun _ => .refl _⟩
    rw [Turn.served, List.filterMap_cons, hserves]
    rfl
  · exact h ▸ ⟨rfl, [], rfl, fun hnone => absurd hnone (by simp)⟩

theorem serves_reply (s : Session) (id : RequestId) (content : Content) :
    (s.reply id content).Serves s [id] :=
  ((serves_send { s with pending := (s.pending.drop id).1 } id content).woken
    (s.pending.drop id).2).congr rfl rfl

/-- The request to run up to a program counter is served when it is reached. -/
theorem serves_reachTarget {s : Session} {target : RunUntil} (h : s.state.runUntil = some target)
    (call : CallId) (content : Content) : (s.reachTarget call target.id content).Serves s [] := by
  have hdues : s.dues = [target.id] := by rw [dues, h]; rfl
  rw [reachTarget]
  refine Turn.Serves.andThen ?_ fun _ => ?_
  · obtain ⟨hid, served, hserved, hperm⟩ :=
      serves_send { s with state := { s.state with runUntil := none } } target.id content
    refine ⟨hid, served, hserved, fun hnone => ?_⟩
    rw [hdues]
    exact hperm hnone
  · exact Turn.Quiet.serves ⟨rfl, rfl, Effect.filterMap_serves?_wakes _⟩

/-! ## Everything else -/

theorem quiet_idle (s : Session) : s.idle.Quiet s :=
  ⟨rfl, rfl, rfl⟩

theorem quiet_release (s : Session) (response : Envelope) : (s.release response).Quiet s := by
  rcases h : s.pending.get? response.id with _ | held
  · exact release_of_none h ▸ s.quiet_idle
  · rw [release_of_some h]
    exact ⟨rfl, rfl, Effect.filterMap_serves?_wakes _⟩

theorem quiet_forward (s : Session) (call : CallId) (id : RequestId) (trigger : String)
    (content : Content) : (s.forward call id trigger content).Quiet s := by
  rcases s.forward_cases call id trigger content with ⟨-, frame, hframe, h⟩ | ⟨fault, -, h⟩
  · rw [h]
    refine ⟨rfl, rfl, ?_⟩
    simp [Turn.served, Effect.serves?, Effect.answer?, hframe, Envelope.request]
  · rw [h]
    exact ⟨rfl, rfl, rfl⟩

/-! ## Messages -/

/-- A new run takes the place of the one that is under way. -/
theorem serves_runUntil (s : Session) (id stepId : RequestId) (pc : UInt64) (content : Content) :
    (s.runUntil id stepId pc content).Serves s [id] := by
  rw [runUntil]
  refine Turn.Serves.andThen ?_ fun _ => (quiet_release _ _).serves
  rcases h : s.state.runUntil with _ | previous
  · exact ⟨rfl, [], rfl, fun _ => by rw [dues, h]; exact .refl _⟩
  · obtain ⟨hid, served, hserved, hperm⟩ := serves_reply
      { s with state := { s.state with runUntil := some ⟨id, pc⟩ } } previous.id
      (Reply.error Reply.superseded)
    refine ⟨hid, served, hserved, fun hnone => ?_⟩
    have hdues : s.dues = [previous.id] := by rw [dues, h]; rfl
    rw [hdues]
    exact (List.Perm.swap _ _ _).trans (hperm hnone)

theorem serves_inject (s : Session) (id : RequestId) (stepId : Option RequestId)
    (content : Content) : (s.inject id stepId content).Serves s [id] := by
  rcases s.inject_cases id stepId content with ⟨k, call, -, -, h⟩ | ⟨-, h⟩
  · exact h ▸ ⟨rfl, [id], rfl, fun _ => .refl _⟩
  · exact h ▸ ⟨rfl, [id], rfl, fun _ => .refl _⟩

theorem serves_handle (s : Session) (mode : ScopeMode) (hasEngine : Bool) (request : Envelope) :
    (s.handle mode hasEngine request).Serves s [request.id] := by
  have h := s.handled mode hasEngine request
  generalize s.handle mode hasEngine request = turn at h ⊢
  rcases h with ⟨hsetUp, -⟩ | ⟨address, slot, -⟩ | ⟨stepId, -⟩ | ⟨stepId, pc, -, -⟩
  · obtain ⟨breakpoints, jumpDestinations, declarations, rfl⟩ := hsetUp
    exact (serves_send _ _ _).congr rfl rfl
  · exact ⟨rfl, [request.id], rfl, fun _ => .refl _⟩
  · exact (serves_inject _ _ _ _).congr rfl rfl
  · exact (serves_runUntil _ _ _ _ _).congr rfl rfl

end Session

end DebugBridge

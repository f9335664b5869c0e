import DebugBridge.Proofs.Bridge.Basic
import DebugBridge.Proofs.Session.Scopes

/-!
# Bridge/Finalized — which addresses run finalized code

The addresses reported as finalized are kept twice: by the bridge, for debuggers yet to come, and by
the live session, where the policy looks them up. What an input does to both is said once
(`Registers`): a report adds an address to both, a new session takes over what the bridge has, the
end of a session empties what the bridge has, and nothing else touches either. So both are one set,
and the set is what was reported since a session last ended (`finalized_since_ending`).
-/

namespace DebugBridge

/-- The address that an input reports as finalized. -/
def Input.finalized? : Input → Option AddressKey
  | .finalize address => some address
  | _ => none

/-- An address is reported by one input only. -/
theorem Input.eq_of_finalized? {input : Input} {address : AddressKey}
    (h : input.finalized? = some address) : input = .finalize address := by
  cases input with
  | finalize other => rw [Option.some.inj h]
  | _ => cases h

/-! ## Turns

What a session does it does with other addresses as well. So it leaves them as they are. -/

namespace Session

/-- A turn that is the same with the addresses of a session has kept them. -/
theorem runtime_eq {s : Session} {t : Turn} (h : t = t.withRuntime s.state.runtime) :
    t.session.state.runtime = s.state.runtime :=
  congrArg (·.session.state.runtime) h

/-- A request to the debugger keeps the addresses. -/
theorem runtime_forward (s : Session) (call : CallId) (id : RequestId) (trigger : String)
    (content : Content) :
    (s.forward call id trigger content).session.state.runtime = s.state.runtime :=
  runtime_eq (s.forward_withRuntime _ call id trigger content)

/-- A step at the target of a run keeps the addresses. -/
theorem runtime_reachTarget (s : Session) (call : CallId) (id : RequestId) (content : Content) :
    (s.reachTarget call id content).session.state.runtime = s.state.runtime :=
  runtime_eq (s.reachTarget_withRuntime _ call id content)

/-- A message of the debugger keeps the addresses. -/
theorem runtime_receive (s : Session) (mode : ScopeMode) (hasEngine : Bool) (e : Envelope) :
    (s.receive mode hasEngine e).session.state.runtime = s.state.runtime :=
  runtime_eq (s.receive_withRuntime _ mode hasEngine e)

/-- A reply keeps the addresses. -/
theorem runtime_reply (s : Session) (id : RequestId) (content : Content) :
    (s.reply id content).session.state.runtime = s.state.runtime :=
  runtime_eq (s.reply_withRuntime _ id content)

end Session

namespace Bridge

/-! ## What an input does to the addresses -/

/-- The addresses of the live session. -/
def runtime? (b : Bridge) : Option KeySet :=
  b.session.map (·.state.runtime)

/-- The addresses that the live session knows. -/
theorem runtime?_of_some {b : Bridge} {s : Session} (h : b.session = some s) :
    b.runtime? = some s.state.runtime := by
  rw [runtime?, h]
  rfl

/-- **What an input does to the addresses.** -/
inductive Registers (b : Bridge) (input : Input) (after : Bridge) : Prop
  | reported (address : AddressKey) : input.finalized? = some address →
    after = b.finalize address → Registers b input after
  | began : input.finalized? = none → b.session = none → after.finalized = b.finalized →
    after.runtime? = some b.finalized → Registers b input after
  | ended : input.finalized? = none → b.session.isSome → after.session = none →
    after.finalized = .empty → Registers b input after
  | kept : input.finalized? = none → after.finalized = b.finalized →
    after.runtime? = b.runtime? → Registers b input after

section

variable {b c : Bridge} {s : Session} {t : Turn} {input : Input}

/-- When the session ends the addresses are forgotten. -/
theorem registers_lose (hs : b.session = some s) (hinput : input.finalized? = none) (t : Session) :
    b.Registers input (c.lose t).1 :=
  .ended hinput (by rw [hs]; rfl) rfl rfl

/-- The bridge goes on with the session of a turn, or the session ends. -/
theorem registers_ite (hs : b.session = some s) (hinput : input.finalized? = none)
    (hfinalized : c.finalized = b.finalized) (hruntime : t.session.state.runtime = s.state.runtime)
    (p : Prop) [Decidable p] : b.Registers input (if p then c.abort t else c.keep t).1 := by
  split
  · exact registers_lose hs hinput t.session
  · exact .kept hinput hfinalized ((congrArg some hruntime).trans (runtime?_of_some hs).symm)

end

/-- **Every input does one of four things to the addresses.** -/
theorem registers (b : Bridge) (input : Input) : b.Registers input (b.step input).1 := by
  rcases hinput : input.finalized? with _ | address
  · have h := b.stepped input
    generalize b.step input = result at h ⊢
    cases h with
    | finalized => cases hinput
    | unmoved | equipped | suppressing | unattended | skipped => exact .kept hinput rfl rfl
    | began hnone => exact .began hinput hnone rfl rfl
    | deafened hs => exact .kept hinput rfl (runtime?_of_some hs).symm
    | dropped hs | closed hs => exact registers_lose hs hinput _
    | asked hs =>
      rw [settle]
      refine registers_ite (c := b.calling) hs hinput rfl ?_ _
      exact Session.runtime_forward _ _ _ _ _
    | reached _ hs =>
      refine registers_ite (c := b.calling) hs hinput rfl ?_ _
      exact Session.runtime_reachTarget _ _ _ _
    | received hs =>
      rw [settle]
      exact registers_ite hs hinput rfl (Session.runtime_receive _ _ _ _) _
    | @answered _ id =>
      rcases hlive : b.session? id with _ | s
      · rw [answer_of_none hlive]
        exact .kept hinput rfl rfl
      · obtain ⟨hs, rfl⟩ := session?_eq_some_iff.1 hlive
        rw [answer_of_some hs]
        exact registers_ite hs hinput rfl (s.runtime_reply _ _) _
  · obtain rfl := Input.eq_of_finalized? hinput
    exact .reported address rfl rfl

/-- A report adds the address to those that the session knows. -/
theorem runtime?_finalize (b : Bridge) (address : AddressKey) :
    (b.finalize address).runtime? = b.runtime?.map (·.insert address.text ()) := by
  rw [runtime?, runtime?, finalize, Option.map_map, Option.map_map]
  rfl

/-- There are addresses of a session when there is a session. -/
theorem isSome_runtime? (b : Bridge) : b.runtime?.isSome = b.session.isSome :=
  Option.isSome_map

/-! ## Both copies -/

/-- **Whether the live session has the addresses of the bridge.** -/
def InStep (b : Bridge) : Prop :=
  ∀ addresses ∈ b.runtime?, addresses = b.finalized

/-- **Every input keeps the session in step with the bridge.** -/
theorem InStep.step {b : Bridge} (h : b.InStep) (input : Input) : (b.step input).1.InStep := by
  rcases b.registers input with ⟨address, -, hafter⟩ | ⟨-, -, hfinalized, hruntime⟩ |
    ⟨-, -, hnone, -⟩ | ⟨-, hfinalized, hruntime⟩
  case reported =>
    rw [hafter, InStep, runtime?_finalize]
    intro addresses hmem
    obtain ⟨before, hbefore, rfl⟩ := Option.map_eq_some_iff.1 hmem
    rw [h before hbefore]
    rfl
  case began =>
    rw [InStep, hruntime, hfinalized]
    rintro _ ⟨⟩
    rfl
  case ended =>
    rw [InStep, runtime?, hnone]
    rintro _ ⟨⟩
  case kept =>
    rw [InStep, hruntime, hfinalized]
    exact h

end Bridge

namespace World

/-- A move keeps the session in step with the bridge. -/
theorem inStep_step {w : World} (h : w.bridge.InStep) (m : Move) : (w.step m).bridge.InStep := by
  rcases m with input | _ | _ | _
  case input => exact h.step input
  all_goals exact h

/-- A run keeps the session in step with the bridge. -/
theorem inStep_run {w : World} (h : w.bridge.InStep) (moves : List Move) :
    (w.run moves).bridge.InStep := by
  induction moves generalizing w with
  | nil => exact h
  | cons m rest ih => exact ih (inStep_step h m)

/-! ## Since a session last ended -/

/-- Whether a move ends a session. -/
def Ends (w : World) (m : Move) : Prop :=
  w.bridge.session.isSome ∧ (w.step m).bridge.session = none

/-- A move after which there are addresses of a session ends none. -/
theorem not_ends {w : World} {m : Move}
    (h : w.bridge.runtime?.isSome → (w.step m).bridge.runtime?.isSome) : ¬w.Ends m := by
  rintro ⟨hsome, hnone⟩
  rw [Bridge.isSome_runtime?, Bridge.isSome_runtime?, hnone] at h
  cases h hsome

/-- A report ends no session. -/
theorem not_ends_finalize (w : World) (address : AddressKey) :
    ¬w.Ends (.input (.finalize address)) := by
  refine not_ends fun h => ?_
  show (w.bridge.finalize address).runtime?.isSome
  rw [Bridge.runtime?_finalize, Option.isSome_map]
  exact h

/-- A move that neither reports an address nor ends a session. -/
theorem finalized_of_same {w : World} {m : Move} {address : AddressKey}
    (finalized : (w.step m).bridge.finalized = w.bridge.finalized)
    (lives : w.bridge.runtime?.isSome → (w.step m).bridge.runtime?.isSome)
    (hm : m ≠ .input (.finalize address)) :
    (w.step m).bridge.finalized.contains address.text ↔
      ¬w.Ends m ∧
        (w.bridge.finalized.contains address.text ∨ m = .input (.finalize address)) := by
  rw [finalized, or_iff_left hm, and_iff_right (not_ends lives)]

/-- After a report the bridge knows that address, and those that it knew. -/
theorem contains_finalize (b : Bridge) (reported address : AddressKey) :
    (b.finalize reported).finalized.contains address.text ↔
      b.finalized.contains address.text ∨ reported = address := by
  have hsame : address.text = reported.text ↔ reported = address :=
    ⟨fun h => congrArg AddressKey.mk h.symm, fun h => congrArg AddressKey.text h.symm⟩
  rw [← hsame]
  simp only [Bridge.finalize, KeyMap.contains, KeyMap.get?_insert]
  split
  · next heq => simp [heq]
  · next hne => simp [hne]

/-- **An address is known after a move** if no session ends with the move, and the address was known
or is reported. -/
theorem finalized_step {w : World} {m : Move} {address : AddressKey} :
    (w.step m).bridge.finalized.contains address.text ↔
      ¬w.Ends m ∧
        (w.bridge.finalized.contains address.text ∨ m = .input (.finalize address)) := by
  rcases m with input | _ | _ | _
  case input =>
    have hother (h : input.finalized? = none) : Move.input input ≠ .input (.finalize address) := by
      rintro ⟨⟩
      cases h
    have h : w.bridge.Registers input (w.step (.input input)).bridge := w.bridge.registers input
    rcases h with ⟨reported, hinput, hafter⟩ | ⟨hinput, -, hfinalized, hruntime⟩ |
      ⟨hinput, hsome, hnone, hfinalized⟩ | ⟨hinput, hfinalized, hruntime⟩
    case reported =>
      obtain rfl := Input.eq_of_finalized? hinput
      rw [hafter, contains_finalize, and_iff_right (not_ends_finalize w reported),
        Move.input.injEq, Input.finalize.injEq]
    case began => exact finalized_of_same hfinalized (fun _ => hruntime ▸ rfl) (hother hinput)
    case ended =>
      rw [hfinalized]
      exact ⟨by rintro ⟨⟩, fun h => absurd ⟨hsome, hnone⟩ h.1⟩
    case kept => exact finalized_of_same hfinalized (fun h => hruntime ▸ h) (hother hinput)
  all_goals exact finalized_of_same rfl (fun h => h) (by rintro ⟨⟩)

/-- **What is known after a run**: it was known before and no session has ended since, or it was
reported in the run and no session has ended since then. -/
theorem finalized_run {w : World} {moves : List Move} {address : AddressKey} :
    (w.run moves).bridge.finalized.contains address.text ↔
      w.bridge.finalized.contains address.text ∧ Along (fun v m => ¬v.Ends m) w moves ∨
      ∃ before after, moves = before ++ .input (.finalize address) :: after ∧
        Along (fun v m => ¬v.Ends m) ((w.run before).step (.input (.finalize address))) after := by
  induction moves generalizing w with
  | nil => simp [Along]
  | cons m rest ih =>
    rw [run_cons, ih, finalized_step, Along]
    constructor
    · rintro (⟨⟨hgoes, hknown | rfl⟩, halong⟩ | ⟨before, after, rfl, halong⟩)
      · exact Or.inl ⟨hknown, hgoes, halong⟩
      · exact Or.inr ⟨[], rest, rfl, halong⟩
      · exact Or.inr ⟨m :: before, after, rfl, halong⟩
    · rintro (⟨hknown, hgoes, halong⟩ | ⟨before, after, heq, halong⟩)
      · exact Or.inl ⟨⟨hgoes, Or.inl hknown⟩, halong⟩
      · rcases before with _ | ⟨first, before⟩
        · obtain ⟨rfl, rfl⟩ := List.cons.inj heq
          exact Or.inl ⟨⟨not_ends_finalize w address, Or.inr rfl⟩, halong⟩
        · obtain ⟨rfl, rfl⟩ := List.cons.inj heq
          exact Or.inr ⟨before, after, rfl, halong⟩

/-- **The finalized addresses**, whatever the order of reports, attaches and ends of sessions: the
bridge knows an address exactly if it was reported and no session has ended since, and the live
session knows the same addresses as the bridge. -/
theorem finalized_since_ending (config : Config) (moves : List Move) :
    let w := run (.new config) moves
    (∀ address : AddressKey, w.bridge.finalized.contains address.text ↔
      ∃ before after, moves = before ++ .input (.finalize address) :: after ∧
        Along (fun v m => ¬v.Ends m)
          ((run (.new config) before).step (.input (.finalize address))) after) ∧
    ∀ s ∈ w.bridge.session, s.state.runtime = w.bridge.finalized := by
  intro w
  refine ⟨fun address => finalized_run.trans (or_iff_right ?_), fun s hs => ?_⟩
  · rintro ⟨⟨⟩, -⟩
  · have hinStep : w.bridge.InStep := inStep_run (by rintro _ ⟨⟩) moves
    exact hinStep s.state.runtime (Bridge.runtime?_of_some hs)

end World

end DebugBridge

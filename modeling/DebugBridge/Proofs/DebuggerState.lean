import DebugBridge.Proofs.Policy
import DebugBridge.Proofs.Session.Freeing

/-!
# Proofs/DebuggerState — what the debugger sets up at one address is its own

What a debugger has set up changes in four ways (`DebuggerState.Change`), and each change but the
disabling of a breakpoint is about one address. Two states agree at an address if they have the same
breakpoints there, the same program counters, and the same flavour of code (`AgreeAt`). Changes at
other addresses do not show (`agreeAt_change`), and a change that is made to both states leaves them
in agreement (`AgreeAt.change`): whether a breakpoint is a duplicate depends on its own address
alone, and a disabling goes by the id at every address alike. The policy looks at the address of the
step and nowhere else (`AgreeAt.decide_eq`), so whatever a history has in between for other
addresses is not to be seen in what becomes of the steps at this one (`decide_after_of_widens`).
-/

namespace DebugBridge

/-! ## Breakpoints at an address -/

namespace BreakpointSet

variable {s t : BreakpointSet} {b : Breakpoint} {address : AddressKey} {scope : Option CodeFlavor}

/-- The breakpoints of one scope at an address. -/
def bucketAt (s : BreakpointSet) (address : AddressKey) (scope : Option CodeFlavor) :
    List Breakpoint :=
  (s.bucket scope).filter (·.address == address)

theorem mem_bucketAt : b ∈ s.bucketAt address scope ↔ b ∈ s.bucket scope ∧ b.address = address := by
  rw [bucketAt, List.mem_filter, beq_iff_eq]

/-- **A breakpoint is a duplicate at its own address** or not at all. -/
theorem isLive_iff_bucketAt :
    s.isLive b = true ↔ ∃ other ∈ s.bucketAt b.address b.scope, other.id = b.id := by
  rw [isLive_iff]
  constructor
  · rintro ⟨other, hother, hid, haddress⟩
    exact ⟨other, mem_bucketAt.2 ⟨hother, haddress⟩, hid⟩
  · rintro ⟨other, hother, hid⟩
    obtain ⟨hmem, haddress⟩ := mem_bucketAt.1 hother
    exact ⟨other, hmem, hid, haddress⟩

theorem bucketAt_add (s : BreakpointSet) (b : Breakpoint) (address : AddressKey)
    (scope : Option CodeFlavor) :
    (s.add b).bucketAt address scope =
      if b.scope = scope ∧ b.address = address then s.bucketAt address scope ++ [b]
      else s.bucketAt address scope := by
  rw [bucketAt, bucket_add]
  by_cases hscope : b.scope = scope
  · rw [if_pos hscope, List.filter_append]
    by_cases haddress : b.address = address <;> simp [bucketAt, hscope, haddress]
  · simp [bucketAt, hscope]

/-- A breakpoint that is enabled elsewhere does not show. -/
theorem bucketAt_enable_of_ne (h : b.address ≠ address) :
    (s.enable b).1.bucketAt address scope = s.bucketAt address scope := by
  rw [enable]
  split
  · rfl
  · rw [bucketAt_add, if_neg fun hboth => h hboth.2]

theorem bucketAt_disable (s : BreakpointSet) (id : BreakpointId) (address : AddressKey)
    (scope : Option CodeFlavor) :
    (s.disable id).1.bucketAt address scope = (s.bucketAt address scope).filter (·.id != id) := by
  rw [bucketAt, bucketAt, bucket_disable, List.filter_comm]

/-- **A change of two sets with the same breakpoints at an address** leaves them the same there. -/
theorem bucketAt_change_congr (h : ∀ scope, s.bucketAt address scope = t.bucketAt address scope)
    (c : Change) (scope : Option CodeFlavor) :
    (s.change c).bucketAt address scope = (t.change c).bucketAt address scope := by
  cases c with
  | enable b =>
    by_cases haddress : b.address = address
    · have hlive : s.isLive b = true ↔ t.isLive b = true := by
        rw [isLive_iff_bucketAt, isLive_iff_bucketAt, haddress, h]
      rw [change, change, enable, enable]
      by_cases hs : s.isLive b = true
      · rw [if_pos hs, if_pos (hlive.1 hs)]
        exact h scope
      · rw [if_neg hs, if_neg (mt hlive.2 hs), bucketAt_add, bucketAt_add, h]
    · rw [change, change, bucketAt_enable_of_ne haddress, bucketAt_enable_of_ne haddress]
      exact h scope
  | disable id =>
    rw [change, change, bucketAt_disable, bucketAt_disable, h]

end BreakpointSet

namespace DebuggerState

/-! ## Changes -/

/-- A change of what the debugger has set up. -/
inductive Change where
  | breakpoints (c : BreakpointSet.Change)
  /-- The entries of functions in a contract are replaced. -/
  | jumpDestinations (address : AddressKey) (pcs : List UInt64)
  /-- The declarations of variables in a contract are replaced. -/
  | declarations (address : AddressKey) (pcs : List UInt64)
  /-- An address runs finalized code from now on. -/
  | runtime (address : AddressKey)
  deriving DecidableEq, Repr

/-- The address that a change is about. A disabling is about an id, at whatever address. -/
def Change.address? : Change → Option AddressKey
  | .breakpoints (.enable b) => some b.address
  | .breakpoints (.disable _) => none
  | .jumpDestinations address _ | .declarations address _ | .runtime address => some address

def change (s : DebuggerState) : Change → DebuggerState
  | .breakpoints c => { s with breakpoints := s.breakpoints.change c }
  | .jumpDestinations address pcs =>
    { s with jumpDestinations := s.jumpDestinations.replace address pcs }
  | .declarations address pcs => { s with declarations := s.declarations.replace address pcs }
  | .runtime address => s.markRuntime address

/-- **The state after a history of changes.** -/
def after (s : DebuggerState) (history : List Change) : DebuggerState :=
  history.foldl change s

/-! ## Agreement at an address -/

/-- **Whether two states have the same at an address**: breakpoints, program counters and code. -/
structure AgreeAt (address : AddressKey) (s t : DebuggerState) : Prop where
  breakpoints : ∀ scope,
    s.breakpoints.bucketAt address scope = t.breakpoints.bucketAt address scope
  jumpDestinations : s.jumpDestinations.get? address.text = t.jumpDestinations.get? address.text
  declarations : s.declarations.get? address.text = t.declarations.get? address.text
  runtime : s.runtime.get? address.text = t.runtime.get? address.text

section

variable {s t u : DebuggerState} {address other : AddressKey} {c : Change}

theorem AgreeAt.refl (s : DebuggerState) : AgreeAt address s s :=
  ⟨fun _ => rfl, rfl, rfl, rfl⟩

theorem AgreeAt.trans (h : AgreeAt address s t) (h' : AgreeAt address t u) : AgreeAt address s u :=
  ⟨fun scope => (h.breakpoints scope).trans (h'.breakpoints scope),
    h.jumpDestinations.trans h'.jumpDestinations, h.declarations.trans h'.declarations,
    h.runtime.trans h'.runtime⟩

theorem text_ne (h : other ≠ address) : address.text ≠ other.text :=
  fun heq => h (by cases other; cases address; exact congrArg _ heq.symm)

/-- **A change at another address does not show.** -/
theorem agreeAt_change (hc : c.address? = some other) (h : other ≠ address) :
    AgreeAt address (s.change c) s := by
  have hother {α : Type} (m : KeyMap α) (value : α) :
      (m.insert other.text value).get? address.text = m.get? address.text := by
    rw [KeyMap.get?_insert, if_neg (text_ne h)]
  rcases c with (b | id) | ⟨place, pcs⟩ | ⟨place, pcs⟩ | place
  case breakpoints.disable => cases hc
  all_goals obtain rfl := Option.some.inj hc
  · exact ⟨fun _ => BreakpointSet.bucketAt_enable_of_ne h, rfl, rfl, rfl⟩
  · exact ⟨fun _ => rfl, hother s.jumpDestinations pcs, rfl, rfl⟩
  · exact ⟨fun _ => rfl, rfl, hother s.declarations pcs, rfl⟩
  · exact ⟨fun _ => rfl, rfl, rfl, hother s.runtime ()⟩

/-- **A change that is made to both** leaves two states in agreement, at whatever address it is. -/
theorem AgreeAt.change (h : AgreeAt address s t) (c : Change) :
    AgreeAt address (s.change c) (t.change c) := by
  have hinsert {α : Type} {m n : KeyMap α} (h : m.get? address.text = n.get? address.text)
      (place : AddressKey) (value : α) :
      (m.insert place.text value).get? address.text =
        (n.insert place.text value).get? address.text := by
    rw [KeyMap.get?_insert, KeyMap.get?_insert, h]
  cases c with
  | breakpoints c =>
    exact { h with breakpoints := BreakpointSet.bucketAt_change_congr h.breakpoints c }
  | jumpDestinations place pcs =>
    exact { h with jumpDestinations := hinsert h.jumpDestinations place pcs }
  | declarations place pcs => exact { h with declarations := hinsert h.declarations place pcs }
  | runtime place => exact { h with runtime := hinsert h.runtime place () }

end

/-! ## Decisions at an address -/

section

variable {s t : DebuggerState} {step : Step}

theorem AgreeAt.hitsBreakpoint_eq (h : AgreeAt step.address s t) (mode : ScopeMode) :
    Policy.hitsBreakpoint s mode step = Policy.hitsBreakpoint t mode step := by
  have hruntime : s.isRuntime step.address = t.isRuntime step.address := by
    rw [isRuntime, isRuntime, KeyMap.contains, KeyMap.contains, h.runtime]
  have hstands (u : DebuggerState) : Policy.hitsBreakpoint u mode step = true ↔
      ∃ scope, mode.Covers scope (.ofRuntime (u.isRuntime step.address)) ∧
        ∃ b ∈ u.breakpoints.bucketAt step.address scope, b.pc = step.pc := by
    simp only [Policy.hitsBreakpoint_eq_true_iff, BreakpointSet.mem_bucketAt, and_assoc]
  rw [Bool.eq_iff_iff, hstands, hstands, hruntime]
  simp only [h.breakpoints]

/-- **The policy looks at the address of the step** and nowhere else. -/
theorem AgreeAt.decide_eq (h : AgreeAt step.address s t) (hrun : s.runUntil = t.runUntil)
    (hfast : s.fastStep = t.fastStep) (skipGas : Bool) (mode : ScopeMode) :
    Policy.decide s skipGas mode step = Policy.decide t skipGas mode step := by
  have htags : Policy.tags s mode step = Policy.tags t mode step := by
    rw [Policy.tags, Policy.tags, AddressIndex.has, AddressIndex.has, AddressIndex.has,
      AddressIndex.has, h.jumpDestinations, h.declarations, h.hitsBreakpoint_eq]
  rw [Policy.decide, Policy.decide, hrun, hfast, htags]

end

/-! ## Histories with more at other addresses -/

/-- **Whether a history is another one with changes at other addresses in between**, anywhere and
any number of them. -/
inductive Widens (address : AddressKey) : List Change → List Change → Prop
  | nil : Widens address [] []
  | keep {history longer : List Change} (c : Change) : Widens address history longer →
    Widens address (c :: history) (c :: longer)
  | insert {history longer : List Change} {c : Change} {other : AddressKey} :
    c.address? = some other → other ≠ address → Widens address history longer →
    Widens address history (c :: longer)

/-- What is set up at an address is the same after both. -/
theorem AgreeAt.after {address : AddressKey} {s t : DebuggerState} (hst : AgreeAt address s t)
    {history longer : List Change} (h : Widens address history longer) :
    AgreeAt address (s.after longer) (t.after history) := by
  induction h generalizing s t with
  | nil => exact hst
  | keep c _ ih => exact ih (hst.change c)
  | insert hc hne _ ih => exact ih ((agreeAt_change hc hne).trans hst)

/-- **Addresses do not interfere.** Whatever a history has in between for other addresses, be it
breakpoints that are enabled there, even under ids that are also in use at this one, program
counters or finalized code: what becomes of a step is as without it, whatever run is under way and
in every mode of stepping, of suppression and of scope. -/
theorem decide_after_of_widens (s : DebuggerState) {step : Step} {history longer : List Change}
    (h : Widens step.address history longer) (runUntil : Option RunUntil)
    (fastStep skipGas : Bool) (mode : ScopeMode) :
    Policy.decide { s.after longer with runUntil, fastStep } skipGas mode step =
      Policy.decide { s.after history with runUntil, fastStep } skipGas mode step := by
  have hagree := (AgreeAt.refl s).after h
  have hboth : AgreeAt step.address { s.after longer with runUntil, fastStep }
      { s.after history with runUntil, fastStep } := { hagree with }
  exact hboth.decide_eq rfl rfl skipGas mode

/-- A breakpoint, a duplicate of it, and the disabling of another id. -/
def twoEnablings : List Change :=
  [.breakpoints (.enable ⟨.number 1, ⟨"aa"⟩, 3, none⟩),
    .breakpoints (.enable ⟨.number 1, ⟨"aa"⟩, 4, none⟩), .breakpoints (.disable (.number 2))]

/-- The same with breakpoints at another address, one under the id of the first and one under the id
that is disabled. -/
def fourEnablings : List Change :=
  [.breakpoints (.enable ⟨.number 1, ⟨"bb"⟩, 4, none⟩),
    .breakpoints (.enable ⟨.number 1, ⟨"aa"⟩, 3, none⟩),
    .breakpoints (.enable ⟨.number 2, ⟨"bb"⟩, 3, some .runtime⟩), .runtime ⟨"bb"⟩,
    .breakpoints (.enable ⟨.number 1, ⟨"aa"⟩, 4, none⟩), .jumpDestinations ⟨"bb"⟩ [3],
    .breakpoints (.disable (.number 2))]

/-- **An id in use at two addresses**: the duplicate is refused and the breakpoint stays, as it
would alone. -/
theorem decide_after_fourEnablings :
    let s := DebuggerState.start .empty
    let step : Step := ⟨⟨"aa"⟩, 3, "ADD", false, .object⟩
    Widens step.address twoEnablings fourEnablings ∧
      Policy.decide { s.after fourEnablings with runUntil := none, fastStep := true } false .scoped
          step =
        Policy.decide { s.after twoEnablings with runUntil := none, fastStep := true } false .scoped
          step ∧
      Policy.decide { s.after twoEnablings with runUntil := none, fastStep := true } false .scoped
          step = .forward [.breakpoint] := by
  intro s step
  have hne : (⟨"bb"⟩ : AddressKey) ≠ step.address := by decide
  have hwidens : Widens step.address twoEnablings fourEnablings :=
    .insert rfl hne (.keep _ (.insert rfl hne (.insert rfl hne (.keep _ (.insert rfl hne
      (.keep _ .nil))))))
  exact ⟨hwidens, decide_after_of_widens s hwidens none true false .scoped, by decide +kernel⟩

end DebuggerState

/-! ## The changes that messages make -/

/-- What a command sets up. A breakpoint is not enabled without a program counter, and its scope
counts where scopes do. -/
def Command.changes (mode : ScopeMode) : Command → List DebuggerState.Change
  | .sendBreakpoint id _ _ false _ => [.breakpoints (.disable id)]
  | .sendBreakpoint id address (some pc) true runtime =>
    let scope :=
      match mode with
      | .scoped => runtime.map .ofRuntime
      | .insensitive => none
    [.breakpoints (.enable ⟨id, address, pc, scope⟩)]
  | .sendDeclarations address pcs => [.declarations address pcs]
  | .sendJumpDestinations address pcs => [.jumpDestinations address pcs]
  | _ => []

namespace Session

/-- **A session sets up what a command says**, and nothing else but the run and the mode of
stepping. -/
theorem exists_state_obey (s : Session) (mode : ScopeMode) (hasEngine : Bool) (id : RequestId)
    (content : Content) (command : Command) :
    ∃ runUntil fastStep, (s.obey mode hasEngine id content command).session.state =
      { s.state.after (command.changes mode) with runUntil, fastStep } := by
  have hsame {state : DebuggerState} :
      ∃ runUntil fastStep, state = { state with runUntil, fastStep } := ⟨_, _, rfl⟩
  have hreply (t : Session) (id : RequestId) (content : Content) :
      ∃ runUntil fastStep, (t.reply id content).session.state =
        { t.state with runUntil, fastStep } := by
    rw [state_reply]
    exact hsame
  cases command with
  | injectNewCode stepId =>
    rw [obey]
    split
    · rw [state_inject]
      exact hsame
    · exact hreply s id _
  | getStorage key slot =>
    rw [obey]
    split
    · exact hreply s id _
    · split
      · exact hreply s id _
      · exact hsame
  | sendBreakpoint breakpoint address pc enabled runtime =>
    rcases enabled with _ | _ <;> rcases pc with _ | pc <;> exact hreply _ id _
  | sendDeclarations address pcs => exact hreply _ id _
  | sendJumpDestinations address pcs => exact hreply _ id _
  | runUntilPc stepId pc =>
    rw [obey, runUntil_eq]
    rcases hfault : (s.supersede ⟨id, pc⟩).fault with _ | fault
    · rw [Turn.andThen_of_none hfault]
      dsimp only
      rw [state_release, state_supersede]
      exact ⟨_, _, rfl⟩
    · rw [Turn.andThen_of_some hfault, state_supersede]
      exact ⟨_, _, rfl⟩
  | ping => exact hreply s id _
  | unknown => exact hreply s id _

/-- **A message sets up what its command says**, if it is a request whose command is carried out,
and nothing if it is not. -/
theorem exists_state_receive (s : Session) (mode : ScopeMode) (hasEngine : Bool) (e : Envelope) :
    ∃ history runUntil fastStep, (s.receive mode hasEngine e).session.state =
      { s.state.after history with runUntil, fastStep } ∧
      (history = [] ∨
        ∃ command, Command.ofContent e.content = .ok command ∧ history = command.changes mode) := by
  rw [receive]
  rcases e.type
  · dsimp only
    rw [handle]
    split
    · rw [session_send]
      exact ⟨[], _, _, rfl, .inl rfl⟩
    · split
      · rw [state_reply]
        exact ⟨[], _, _, rfl, .inl rfl⟩
      · next command hcommand =>
        obtain ⟨run, fast, h⟩ := exists_state_obey { s with pending := _ } mode hasEngine e.id
          e.content command
        exact ⟨_, run, fast, h, .inr ⟨command, hcommand, rfl⟩⟩
  · dsimp only
    rw [state_release]
    exact ⟨[], _, _, rfl, .inl rfl⟩

end Session

end DebugBridge

import DebugBridge.Policy
import DebugBridge.Proofs.Breakpoints

/-!
# Proofs/Policy — the rules for steps, without a look at how they are applied

A step of a gas estimation may be suppressed, a run decides by the program counter alone, and all
other steps go by their tags. For each tag it is said when it applies to a step (`Applies`): in
words about the opcode, about what the debugger has sent for the address, and about the breakpoints
that are live. The tags of a step are those that apply, in their order and each once
(`tagsOf_tags`), which leaves no choice (`TagsOf.unique`); so the rules determine what becomes of a
step (`decide_eq_iff_rules`).
-/

namespace DebugBridge

/-! ## What the debugger has set up -/

theorem AddressIndex.has_eq_true_iff {index : AddressIndex} {address : AddressKey} {pc : UInt64} :
    index.has address pc = true ↔ ∃ pcs, index.get? address.text = some pcs ∧ pc ∈ pcs := by
  rw [has]
  rcases index.get? address.text with _ | pcs <;> simp

theorem BreakpointSet.hitsAnyScope_eq_true_iff {s : BreakpointSet} {address : AddressKey}
    {pc : UInt64} :
    s.hitsAnyScope address pc = true ↔
      ∃ scope, ∃ b ∈ s.bucket scope, b.address = address ∧ b.pc = pc := by
  rw [hitsAnyScope, List.any_eq_true]
  simp only [toList, Breakpoint.isAt, List.mem_append, Bool.and_eq_true, beq_iff_eq]
  constructor
  · rintro ⟨b, (hb | hb) | hb, hpc, haddress⟩
    · exact ⟨some .creation, b, hb, haddress, hpc⟩
    · exact ⟨some .runtime, b, hb, haddress, hpc⟩
    · exact ⟨none, b, hb, haddress, hpc⟩
  · rintro ⟨_ | _ | _, b, hb, haddress, hpc⟩
    · exact ⟨b, .inr hb, hpc, haddress⟩
    · exact ⟨b, .inl (.inl hb), hpc, haddress⟩
    · exact ⟨b, .inl (.inr hb), hpc, haddress⟩

/-- Whether breakpoints of a scope stand in code of a flavour, as the mode has it. -/
def ScopeMode.Covers (mode : ScopeMode) (scope : Option CodeFlavor) (flavor : CodeFlavor) : Prop :=
  mode = .insensitive ∨ scope = none ∨ scope = some flavor

namespace Policy

variable {s : DebuggerState} {skipGas : Bool} {mode : ScopeMode} {step : Step}

/-- **A breakpoint stands at a step** if one is live at its place whose scope covers the code that
the address runs. -/
theorem hitsBreakpoint_eq_true_iff :
    hitsBreakpoint s mode step = true ↔
      ∃ scope, mode.Covers scope (.ofRuntime (s.isRuntime step.address)) ∧
        ∃ b ∈ s.breakpoints.bucket scope, b.address = step.address ∧ b.pc = step.pc := by
  rcases mode with _ | _
  · have hcovers (scope : Option CodeFlavor) (flavor : CodeFlavor) :
        ScopeMode.scoped.Covers scope flavor ↔ scope = none ∨ scope = some flavor :=
      or_iff_right nofun
    simp only [hcovers]
    exact BreakpointSet.hits_eq_true_iff
  · have hcovers (scope : Option CodeFlavor) (flavor : CodeFlavor) :
        ScopeMode.insensitive.Covers scope flavor := .inl rfl
    simp only [hcovers, true_and]
    exact BreakpointSet.hitsAnyScope_eq_true_iff

/-! ## Tags -/

/-- **Whether a tag applies to a step.** -/
def Applies (s : DebuggerState) (mode : ScopeMode) (step : Step) : StepTag → Prop
  | .specialEvent => step.opcode = "DELEGATECALL"
  | .jumpDestination =>
    ∃ pcs, s.jumpDestinations.get? step.address.text = some pcs ∧ step.pc ∈ pcs
  | .jump =>
    (¬∃ pcs, s.jumpDestinations.get? step.address.text = some pcs ∧ step.pc ∈ pcs) ∧
      (step.opcode = "JUMP" ∨ step.opcode = "JUMPI" ∨ step.opcode = "JUMPDEST")
  | .declaration => ∃ pcs, s.declarations.get? step.address.text = some pcs ∧ step.pc ∈ pcs
  | .breakpoint =>
    ∃ scope, mode.Covers scope (.ofRuntime (s.isRuntime step.address)) ∧
      ∃ b ∈ s.breakpoints.bucket scope, b.address = step.address ∧ b.pc = step.pc

/-- **After a history of changes a breakpoint stands at a step** if one lasts there whose scope
covers the code. -/
theorem applies_breakpoint_iff_lasts {history : List BreakpointSet.Change}
    (h : s.breakpoints = .after history) :
    Applies s mode step .breakpoint ↔
      ∃ i b, BreakpointSet.Lasts history i b ∧ b.address = step.address ∧ b.pc = step.pc ∧
        mode.Covers b.scope (.ofRuntime (s.isRuntime step.address)) := by
  simp only [Applies, h, (BreakpointSet.recorded history _).mem_iff]
  constructor
  · rintro ⟨scope, hcovers, b, ⟨rfl, i, hlasts⟩, haddress, hpc⟩
    exact ⟨i, b, hlasts, haddress, hpc, hcovers⟩
  · rintro ⟨i, b, hlasts, haddress, hpc, hcovers⟩
    exact ⟨b.scope, hcovers, b, ⟨rfl, i, hlasts⟩, haddress, hpc⟩

/-- No step is the entry of a function and another jump. -/
theorem not_applies_both_jumps :
    ¬(Applies s mode step .jumpDestination ∧ Applies s mode step .jump) :=
  fun h => h.2.1 h.1

theorem mem_tags_iff {tag : StepTag} : tag ∈ tags s mode step ↔ Applies s mode step tag := by
  have hite {c : Prop} [Decidable c] {t : StepTag} :
      tag ∈ (if c then [t] else []) ↔ tag = t ∧ c := by
    split <;> simp [*]
  have hjumps {c d : Prop} [Decidable c] [Decidable d] {t u : StepTag} :
      tag ∈ (if c then [t] else if d then [u] else []) ↔ tag = t ∧ c ∨ tag = u ∧ ¬c ∧ d := by
    split <;> simp [*]
  rw [tags, List.mem_append, List.mem_append, List.mem_append, hite, hjumps, hite, hite,
    AddressIndex.has_eq_true_iff, AddressIndex.has_eq_true_iff, hitsBreakpoint_eq_true_iff]
  rcases tag <;> simp [Applies, isSpecialCall, isJump]

end Policy

/-- The tags in the order in which a step has them. -/
def StepTag.inOrder : List StepTag :=
  [.specialEvent, .jumpDestination, .jump, .declaration, .breakpoint]

namespace Policy

variable {s : DebuggerState} {skipGas : Bool} {mode : ScopeMode} {step : Step}
  {list other : List StepTag}

/-- **Whether a list has the tags that apply to a step**, in their order and each once. -/
structure TagsOf (s : DebuggerState) (mode : ScopeMode) (step : Step) (list : List StepTag) :
    Prop where
  inOrder : list.Sublist StepTag.inOrder
  mem_iff : ∀ tag, tag ∈ list ↔ Applies s mode step tag

theorem tagsOf_tags (s : DebuggerState) (mode : ScopeMode) (step : Step) :
    TagsOf s mode step (tags s mode step) where
  inOrder := by
    have hite {c : Prop} [Decidable c] (t : StepTag) :
        (if c then [t] else []).Sublist [t] := by
      split
      · exact .refl _
      · exact List.nil_sublist _
    have hjumps {c d : Prop} [Decidable c] [Decidable d] (t u : StepTag) :
        (if c then [t] else if d then [u] else []).Sublist [t, u] := by
      split
      · exact List.sublist_append_left [t] [u]
      · exact (hite u).trans (List.sublist_append_right [t] [u])
    exact (((hite .specialEvent).append (hjumps .jumpDestination .jump)).append
      (hite .declaration)).append (hite .breakpoint)
  mem_iff _ := mem_tags_iff

theorem TagsOf.nodup (h : TagsOf s mode step list) : list.Nodup :=
  h.inOrder.nodup (by decide)

/-- **A step has no other list of tags.** -/
theorem TagsOf.unique (h : TagsOf s mode step list) (h' : TagsOf s mode step other) :
    list = other := by
  let before (a b : StepTag) : Prop := StepTag.inOrder.idxOf a < StepTag.inOrder.idxOf b
  have hinOrder : StepTag.inOrder.Pairwise before := by decide
  have hperm : list.Perm other :=
    (List.perm_ext_iff_of_nodup h.nodup h'.nodup).2 fun tag =>
      (h.mem_iff tag).trans (h'.mem_iff tag).symm
  exact hperm.eq_of_pairwise (fun _ _ _ _ hab hba => absurd hab (Nat.lt_asymm hba))
    (hinOrder.sublist h.inOrder) (hinOrder.sublist h'.inOrder)

theorem TagsOf.eq_nil_iff (h : TagsOf s mode step list) :
    list = [] ↔ ∀ tag, ¬Applies s mode step tag := by
  rw [List.eq_nil_iff_forall_not_mem]
  exact forall_congr' fun tag => not_congr (h.mem_iff tag)

/-! ## Decisions -/

/-- Whether a step is suppressed. -/
def Suppressed (skipGas : Bool) (step : Step) : Prop :=
  skipGas = true ∧ step.estimatingGas = true

/-- **The rules for a step.** -/
inductive Rules (s : DebuggerState) (skipGas : Bool) (mode : ScopeMode) (step : Step) :
    Decision → Prop
  | suppressed : Suppressed skipGas step → Rules s skipGas mode step .skip
  | reached {run : RunUntil} : ¬Suppressed skipGas step → s.runUntil = some run →
    step.pc = run.pc → Rules s skipGas mode step (.runUntilHit run.id)
  | running {run : RunUntil} : ¬Suppressed skipGas step → s.runUntil = some run →
    step.pc ≠ run.pc → Rules s skipGas mode step .skip
  | forwarded {list : List StepTag} : ¬Suppressed skipGas step → s.runUntil = none →
    TagsOf s mode step list → (∃ tag, Applies s mode step tag) ∨ s.fastStep = false →
    Rules s skipGas mode step (.forward list)
  | passed : ¬Suppressed skipGas step → s.runUntil = none →
    (∀ tag, ¬Applies s mode step tag) → s.fastStep = true → Rules s skipGas mode step .skip

/-- What is decided is by the rules. -/
theorem rules_decide (s : DebuggerState) (skipGas : Bool) (mode : ScopeMode) (step : Step) :
    Rules s skipGas mode step (decide s skipGas mode step) := by
  rw [decide]
  split
  · next h => exact .suppressed (Bool.and_eq_true_iff.1 h)
  · next h =>
    have hnot : ¬Suppressed skipGas step := fun hboth => h (Bool.and_eq_true_iff.2 hboth)
    split
    · next run hrun =>
      split
      · next hpc => exact .reached hnot hrun (beq_iff_eq.1 hpc)
      · next hpc => exact .running hnot hrun fun heq => hpc (beq_iff_eq.2 heq)
    · next hrun =>
      have htags := tagsOf_tags s mode step
      rcases hfast : s.fastStep
      · simp only [Bool.and_false]
        exact .forwarded hnot hrun htags (.inr hfast)
      · simp only [Bool.and_true, List.isEmpty_iff]
        split
        · next hnil => exact .passed hnot hrun (htags.eq_nil_iff.1 hnil) hfast
        · next hsome =>
          have happlies : ∃ tag, Applies s mode step tag := by
            by_contra hnone
            exact hsome (htags.eq_nil_iff.2 (not_exists.1 hnone))
          exact .forwarded hnot hrun htags (.inl happlies)

/-- **The rules leave no choice.** -/
theorem Rules.unique {d d' : Decision} (h : Rules s skipGas mode step d)
    (h' : Rules s skipGas mode step d') : d = d' := by
  have hrun {run run' : RunUntil} (h : s.runUntil = some run) (h' : s.runUntil = some run') :
      run = run' := Option.some.inj (h.symm.trans h')
  cases h with
  | suppressed hyes =>
    cases h' with
    | suppressed => rfl
    | reached hno | running hno | forwarded hno | passed hno => exact absurd hyes hno
  | reached hno hr hpc =>
    cases h' with
    | suppressed hyes => exact absurd hyes hno
    | reached _ hr' => rw [hrun hr hr']
    | running _ hr' hne => exact absurd (hrun hr hr' ▸ hpc) hne
    | forwarded _ hnone | passed _ hnone => cases hr.symm.trans hnone
  | running hno hr hne =>
    cases h' with
    | suppressed | running | passed => rfl
    | reached _ hr' hpc => exact absurd (hrun hr' hr ▸ hpc) hne
    | forwarded _ hnone => cases hr.symm.trans hnone
  | forwarded hno hnone htags hany =>
    cases h' with
    | suppressed hyes => exact absurd hyes hno
    | reached _ hr | running _ hr => cases hr.symm.trans hnone
    | forwarded _ _ htags' => rw [htags.unique htags']
    | passed _ _ happlies hfast =>
      rcases hany with ⟨tag, htag⟩ | hslow
      · exact absurd htag (happlies tag)
      · cases hfast.symm.trans hslow
  | passed hno hnone happlies hfast =>
    cases h' with
    | suppressed | running | passed => rfl
    | reached _ hr => cases hr.symm.trans hnone
    | forwarded _ _ _ hany =>
      rcases hany with ⟨tag, htag⟩ | hslow
      · exact absurd htag (happlies tag)
      · cases hfast.symm.trans hslow

/-- **What becomes of a step** is what the rules say: it is passed over if it is suppressed; during
a run it reaches the target if it has its program counter, and is passed over if not; otherwise it
goes to the debugger with just the tags that apply, if any does or the debugger wants every step,
and is passed over if not. The tags come in their order, none of them twice and not both kinds of
jump, and there are none only if the debugger wants every step. A breakpoint counts from the
enabling that is not refused to the next disabling of its id. -/
theorem decide_eq_iff_rules (s : DebuggerState) (skipGas : Bool) (mode : ScopeMode) (step : Step) :
    (∀ d, decide s skipGas mode step = d ↔ Rules s skipGas mode step d) ∧
    (∀ list, decide s skipGas mode step = .forward list →
      list.Nodup ∧ ¬(.jumpDestination ∈ list ∧ .jump ∈ list) ∧
        (list = [] → s.fastStep = false)) ∧
    ∀ history, s.breakpoints = .after history →
      (Applies s mode step .breakpoint ↔
        ∃ i b, BreakpointSet.Lasts history i b ∧ b.address = step.address ∧ b.pc = step.pc ∧
          mode.Covers b.scope (.ofRuntime (s.isRuntime step.address))) := by
  have hrules := rules_decide s skipGas mode step
  refine ⟨fun d => ⟨fun h => h ▸ hrules, hrules.unique⟩, fun list h => ?_,
    fun _ => applies_breakpoint_iff_lasts⟩
  rw [h] at hrules
  cases hrules with
  | forwarded _ _ htags hany =>
    refine ⟨htags.nodup, fun hboth => ?_, fun hnil => ?_⟩
    · rw [htags.mem_iff, htags.mem_iff] at hboth
      exact not_applies_both_jumps hboth
    · rcases hany with ⟨tag, htag⟩ | hslow
      · exact absurd htag (htags.eq_nil_iff.1 hnil tag)
      · exact hslow

/-- A jump target at which a variable is declared and a breakpoint stands, and which is not known as
the entry of a function. -/
example :
    let s : DebuggerState :=
      { DebuggerState.start .empty with
        breakpoints := .after [.enable ⟨.number 1, ⟨"aa"⟩, 3, none⟩]
        jumpDestinations := AddressIndex.replace .empty ⟨"aa"⟩ [7]
        declarations := AddressIndex.replace .empty ⟨"aa"⟩ [3] }
    decide s false .scoped ⟨⟨"aa"⟩, 3, "JUMPDEST", false, .object⟩ =
      .forward [.jump, .declaration, .breakpoint] := by
  decide +kernel

end Policy

end DebugBridge

import DebugBridge.DebuggerState
import Mathlib.Data.List.Induction

/-!
# Proofs/Breakpoints — a set of breakpoints as what its history left

A set of breakpoints changes by enabling and disabling. What is in it is told here by its history
alone: an enabling of the history *lasts* if it was not refused when it came and no later change
disables its id. Each bucket holds the breakpoints of its scope whose enabling lasts, in the order
of the history (`Recorded`, which `Recorded.enable` and `Recorded.disable` keep), so whether a
breakpoint stands at a program counter is a question about the history (`hits_iff_lasts`).
-/

namespace DebugBridge

namespace BreakpointSet

variable {s : BreakpointSet} {b other : Breakpoint} {scope : Option CodeFlavor} {id : BreakpointId}

/-! ## One change -/

theorem bucket_add (s : BreakpointSet) (b : Breakpoint) (scope : Option CodeFlavor) :
    (s.add b).bucket scope = if b.scope = scope then s.bucket scope ++ [b] else s.bucket scope := by
  rcases hb : b.scope with _ | _ | _ <;> rcases scope with _ | _ | _ <;> simp [add, bucket, hb]

theorem bucket_disable (s : BreakpointSet) (id : BreakpointId) (scope : Option CodeFlavor) :
    (s.disable id).1.bucket scope = (s.bucket scope).filter (·.id != id) := by
  rcases scope with _ | _ | _ <;> rfl

theorem isLive_iff : s.isLive b = true ↔
    ∃ other ∈ s.bucket b.scope, other.id = b.id ∧ other.address = b.address := by
  simp [isLive]

theorem toList_disable (s : BreakpointSet) (id : BreakpointId) :
    (s.disable id).1.toList = s.toList.filter (·.id != id) := by
  simp [disable, toList]

/-- **Disabling tells how many breakpoints had the id.** -/
theorem disabled_eq_countP (s : BreakpointSet) (id : BreakpointId) :
    (s.disable id).2 = s.toList.countP (·.id == id) := by
  have hsplit := List.length_eq_countP_add_countP (fun b : Breakpoint => b.id == id) (l := s.toList)
  have hkept : (s.disable id).1.toList.length = s.toList.countP fun b => ¬(b.id == id) = true := by
    rw [toList_disable, ← List.countP_eq_length_filter]
    exact List.countP_congr fun b _ => by simp
  have hcount : (s.disable id).2 = s.toList.length - (s.disable id).1.toList.length := rfl
  omega

theorem hits_eq_true_iff {address : AddressKey} {pc : UInt64} {runtime : Bool} :
    s.hits address pc runtime = true ↔
      ∃ scope, (scope = none ∨ scope = some (.ofRuntime runtime)) ∧
        ∃ b ∈ s.bucket scope, b.address = address ∧ b.pc = pc := by
  simp [hits, bucket, Breakpoint.isAt, or_and_right, exists_or, and_comm, or_comm]

/-! ## Histories -/

/-- A change of a set of breakpoints. -/
inductive Change where
  | enable (b : Breakpoint)
  | disable (id : BreakpointId)
  deriving DecidableEq, Repr

def change (s : BreakpointSet) : Change → BreakpointSet
  | .enable b => (s.enable b).1
  | .disable id => (s.disable id).1

/-- **The set after a history of changes**, from the empty one on. -/
def after (history : List Change) : BreakpointSet :=
  history.foldl change empty

theorem after_concat (history : List Change) (c : Change) :
    after (history ++ [c]) = (after history).change c := by
  simp [after]

/-- **Whether the change in place `i` of a history enables a breakpoint that lasts**: it is not
refused when it comes, and no later change disables the id. -/
def Lasts (history : List Change) (i : Nat) (b : Breakpoint) : Prop :=
  history[i]? = some (.enable b) ∧ ((after (history.take i)).enable b).2 = true ∧
    ∀ j, i < j → history[j]? ≠ some (.disable b.id)

variable {history : List Change} {c : Change} {i : Nat}

theorem Lasts.lt_length (h : Lasts history i b) : i < history.length :=
  (List.getElem?_eq_some_iff.1 h.1).1

/-- **What lasts after one more change**: what lasted before and is not disabled, and the breakpoint
that is enabled. -/
theorem lasts_concat_iff : Lasts (history ++ [c]) i b ↔
    Lasts history i b ∧ c ≠ .disable b.id ∨
      i = history.length ∧ c = .enable b ∧ ((after history).enable b).2 = true := by
  rcases Nat.lt_trichotomy i history.length with hlt | rfl | hgt
  · have hne : i ≠ history.length := Nat.ne_of_lt hlt
    have htake : (history ++ [c]).take i = history.take i :=
      List.take_append_of_le_length (Nat.le_of_lt hlt)
    have hlater : (∀ j, i < j → (history ++ [c])[j]? ≠ some (.disable b.id)) ↔
        (∀ j, i < j → history[j]? ≠ some (.disable b.id)) ∧ c ≠ .disable b.id := by
      constructor
      · intro h
        refine ⟨fun j hj heq => ?_, fun heq => h history.length hlt (by simp [heq])⟩
        obtain ⟨hj', -⟩ := List.getElem?_eq_some_iff.1 heq
        exact h j hj (by rw [List.getElem?_append_left hj', heq])
      · rintro ⟨h, hc⟩ j hj heq
        rcases Nat.lt_or_ge j history.length with hj' | hj'
        · exact h j hj (by rwa [List.getElem?_append_left hj'] at heq)
        · rw [List.getElem?_append_right hj', List.getElem?_singleton] at heq
          split at heq
          · exact hc (Option.some.inj heq)
          · cases heq
    simp only [Lasts, List.getElem?_append_left hlt, htake, hlater, hne, false_and, or_false,
      and_assoc]
  · have hbefore : ¬Lasts history history.length b := fun h => Nat.lt_irrefl _ h.lt_length
    have hlater : ∀ j, history.length < j → (history ++ [c])[j]? ≠ some (.disable b.id) := by
      intro j hj heq
      have hlt := (List.getElem?_eq_some_iff.1 heq).1
      rw [List.length_append, List.length_singleton] at hlt
      omega
    simp only [hbefore, false_and, false_or, true_and]
    simp only [Lasts, List.getElem?_concat_length, List.take_left, Option.some.injEq]
    exact ⟨fun h => ⟨h.1, h.2.1⟩, fun h => ⟨h.1, h.2, hlater⟩⟩
  · refine iff_of_false (fun h => ?_) ?_
    · have hlt := h.lt_length
      rw [List.length_append, List.length_singleton] at hlt
      omega
    · rintro (⟨h, -⟩ | ⟨rfl, -⟩)
      · exact Nat.lt_asymm hgt h.lt_length
      · exact Nat.lt_irrefl _ hgt

/-- **A bucket as its history left it**: it holds the breakpoints of its scope that last, in the
order in which they were enabled. -/
def Recorded (history : List Change) (scope : Option CodeFlavor) (bucket : List Breakpoint) : Prop :=
  ∃ entries : List (Nat × Breakpoint), entries.map (·.2) = bucket ∧
    entries.Pairwise (fun e f => e.1 < f.1) ∧
    ∀ i b, (i, b) ∈ entries ↔ Lasts history i b ∧ b.scope = scope

theorem Recorded.mem_iff {bucket : List Breakpoint} (h : Recorded history scope bucket) :
    b ∈ bucket ↔ b.scope = scope ∧ ∃ i, Lasts history i b := by
  obtain ⟨entries, rfl, -, hentries⟩ := h
  rw [List.mem_map]
  constructor
  · rintro ⟨⟨i, b⟩, he, rfl⟩
    obtain ⟨hlasts, hscope⟩ := (hentries i b).1 he
    exact ⟨hscope, i, hlasts⟩
  · rintro ⟨hscope, i, hlasts⟩
    exact ⟨(i, b), (hentries i b).2 ⟨hlasts, hscope⟩, rfl⟩

theorem Recorded.enable (h : Recorded history scope ((after history).bucket scope)) (b : Breakpoint) :
    Recorded (history ++ [.enable b]) scope (((after history).enable b).1.bucket scope) := by
  obtain ⟨entries, hbucket, hsorted, hentries⟩ := h
  by_cases hlive : (after history).isLive b = true
  · -- refused: the history is longer, and nothing else changes
    have hsame : (after history).enable b = (after history, false) := by
      rw [BreakpointSet.enable, if_pos hlive]
    refine ⟨entries, by rw [hsame, hbucket], hsorted, fun i other => ?_⟩
    rw [hentries, lasts_concat_iff]
    refine and_congr_left' ⟨fun h => .inl ⟨h, nofun⟩, ?_⟩
    rintro (⟨h, -⟩ | ⟨-, heq, haccepted⟩)
    · exact h
    · obtain rfl := Change.enable.inj heq
      rw [hsame] at haccepted
      cases haccepted
  · have hadded : (after history).enable b = ((after history).add b, true) := by
      rw [BreakpointSet.enable, if_neg hlive]
    have hlasts (i : Nat) (other : Breakpoint) : Lasts (history ++ [.enable b]) i other ↔
        Lasts history i other ∨ i = history.length ∧ other = b := by
      rw [lasts_concat_iff]
      refine or_congr (and_iff_left nofun) (and_congr_right fun _ => ?_)
      constructor
      · exact fun h => (Change.enable.inj h.1).symm
      · rintro rfl
        exact ⟨rfl, by rw [hadded]⟩
    rw [hadded, bucket_add]
    split
    · next hscope =>
      refine ⟨entries ++ [(history.length, b)], by simp [hbucket], ?_, fun i other => ?_⟩
      · refine List.pairwise_append.2 ⟨hsorted, List.pairwise_singleton _ _, fun e he f hf => ?_⟩
        obtain rfl := List.mem_singleton.1 hf
        exact ((hentries e.1 e.2).1 he).1.lt_length
      · rw [List.mem_append, hentries, List.mem_singleton, Prod.mk.injEq, hlasts, or_and_right]
        refine or_congr_right (iff_self_and.2 ?_)
        rintro ⟨-, rfl⟩
        exact hscope
    · next hscope =>
      refine ⟨entries, hbucket, hsorted, fun i other => ?_⟩
      rw [hentries, hlasts, or_and_right]
      refine (or_iff_left ?_).symm
      rintro ⟨⟨-, rfl⟩, h⟩
      exact hscope h

theorem Recorded.disable (h : Recorded history scope ((after history).bucket scope))
    (id : BreakpointId) :
    Recorded (history ++ [.disable id]) scope (((after history).disable id).1.bucket scope) := by
  obtain ⟨entries, hbucket, hsorted, hentries⟩ := h
  refine ⟨entries.filter (·.2.id != id), ?_, hsorted.filter _, fun i b => ?_⟩
  · rw [bucket_disable, ← hbucket, List.filter_map]
    rfl
  · rw [List.mem_filter, hentries, lasts_concat_iff, and_right_comm]
    refine and_congr_left' ?_
    have hid : (b.id != id) = true ↔ Change.disable id ≠ .disable b.id := by
      rw [bne_iff_ne, Ne, Ne, Change.disable.injEq, eq_comm]
    rw [hid]
    exact (or_iff_left fun h => nomatch h.2.1).symm

/-- **Every history leaves its buckets so.** -/
theorem recorded (history : List Change) (scope : Option CodeFlavor) :
    Recorded history scope ((after history).bucket scope) := by
  induction history using List.reverseRecOn with
  | nil =>
    refine ⟨[], ?_, .nil, fun i b => iff_of_false List.not_mem_nil fun h => ?_⟩
    · rcases scope with _ | _ | _ <;> rfl
    · exact Nat.not_lt_zero i h.1.lt_length
  | append_singleton history c ih =>
    rw [after_concat]
    cases c with
    | enable b => exact ih.enable b
    | disable id => exact ih.disable id

/-! ## One breakpoint for an id and an address -/

/-- Two breakpoints of one bucket would be the same to `enable`. -/
def Rivals (b other : Breakpoint) : Prop :=
  b.id = other.id ∧ b.address = other.address

/-- **No bucket has two breakpoints with one id and address.** -/
theorem no_rivals (history : List Change) (scope : Option CodeFlavor) :
    ((after history).bucket scope).Pairwise fun b other => ¬Rivals b other := by
  induction history using List.reverseRecOn with
  | nil => rcases scope with _ | _ | _ <;> exact .nil
  | append_singleton history c ih =>
    rw [after_concat]
    cases c with
    | enable b =>
      rw [change, enable]
      split
      · exact ih
      · next hlive =>
        rw [bucket_add]
        split
        · next hscope =>
          refine List.pairwise_append.2 ⟨ih, List.pairwise_singleton _ _, fun e he f hf heq => ?_⟩
          obtain rfl := List.mem_singleton.1 hf
          exact hlive (isLive_iff.2 ⟨e, hscope ▸ he, heq⟩)
        · exact ih
    | disable id =>
      rw [change, bucket_disable]
      exact ih.filter _

/-! ## The lifetime of a breakpoint -/

/-- **Breakpoints live from the enabling that is not refused to the next disabling of their id.**
After any history a bucket holds just the breakpoints of its scope that last, in the order of the
history, at most one for an id and address; an enabling is refused for a breakpoint that lasts, of
the same id, address and scope; disabling an id gives the number of its breakpoints and takes out no
others; and a breakpoint stands at a program counter for code of a flavour if one lasts there that
has this flavour or none. -/
theorem hits_iff_lasts (history : List Change) :
    (∀ scope, (∀ b ∈ (after history).bucket scope, b.scope = scope) ∧
      ((after history).bucket scope).Pairwise (fun b other => ¬Rivals b other) ∧
      Recorded history scope ((after history).bucket scope)) ∧
    (∀ b, ((after history).enable b).2 = false ↔
      ∃ i other, Lasts history i other ∧ other.scope = b.scope ∧ Rivals other b) ∧
    (∀ id, ((after history).disable id).2 = (after history).toList.countP (·.id == id) ∧
      ∀ scope, ((after history).disable id).1.bucket scope =
        ((after history).bucket scope).filter (·.id != id)) ∧
    ∀ address pc runtime, (after history).hits address pc runtime = true ↔
      ∃ i b, Lasts history i b ∧ b.address = address ∧ b.pc = pc ∧
        (b.scope = none ∨ b.scope = some (.ofRuntime runtime)) := by
  have hmem (scope : Option CodeFlavor) (b : Breakpoint) :
      b ∈ (after history).bucket scope ↔ b.scope = scope ∧ ∃ i, Lasts history i b :=
    (recorded history scope).mem_iff
  refine ⟨fun scope => ⟨fun b hb => ((hmem scope b).1 hb).1, no_rivals history scope,
    recorded history scope⟩, fun b => ?refused, fun id => ⟨disabled_eq_countP _ id, bucket_disable _ id⟩,
    fun address pc runtime => ?hits⟩
  case refused =>
    have hlive : ((after history).enable b).2 = false ↔ (after history).isLive b = true := by
      rw [enable]
      split <;> simp [*]
    rw [hlive, isLive_iff]
    constructor
    · rintro ⟨other, hother, hrivals⟩
      obtain ⟨hscope, i, hlasts⟩ := (hmem _ other).1 hother
      exact ⟨i, other, hlasts, hscope, hrivals⟩
    · rintro ⟨i, other, hlasts, hscope, hrivals⟩
      exact ⟨other, (hmem _ other).2 ⟨hscope, i, hlasts⟩, hrivals⟩
  case hits =>
    rw [hits_eq_true_iff]
    constructor
    · rintro ⟨scope, hscope, b, hb, haddress, hpc⟩
      obtain ⟨rfl, i, hlasts⟩ := (hmem scope b).1 hb
      exact ⟨i, b, hlasts, haddress, hpc, hscope⟩
    · rintro ⟨i, b, hlasts, haddress, hpc, hscope⟩
      exact ⟨b.scope, hscope, b, (hmem _ b).2 ⟨rfl, i, hlasts⟩, haddress, hpc⟩

/-- A duplicate that asks for another program counter is refused, and may come again once the first
one is disabled. -/
example :
    let enable (pc : UInt64) : Change := .enable ⟨.number 1, ⟨"aa"⟩, pc, some .runtime⟩
    let refused := after [enable 10, enable 11]
    let again := after [enable 10, enable 11, .disable (.number 1), enable 11]
    refused.hits ⟨"aa"⟩ 10 true ∧ ¬refused.hits ⟨"aa"⟩ 11 true ∧
      ¬again.hits ⟨"aa"⟩ 10 true ∧ again.hits ⟨"aa"⟩ 11 true ∧ ¬again.hits ⟨"aa"⟩ 11 false := by
  decide

end BreakpointSet

end DebugBridge

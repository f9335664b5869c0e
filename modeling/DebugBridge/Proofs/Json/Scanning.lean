import DebugBridge.Proofs.Json.Brackets
import DebugBridge.Proofs.Json.Layout

/-!
# Proofs/Json/Scanning — the brackets of a text, however it is laid out

A pass over the text of a value comes out where it went in, and goes as many brackets deeper as the
value is written with containers around each other (`Written.scans`). What stands inside a string
never ends it: a backslash takes the byte after it along, be it a quote or another backslash. So the
bracket depth of a text is the nesting of what is written in it
(`Written.LaidOut.bracketDepth_eq`).
-/

namespace DebugBridge

namespace Json

namespace Written

mutual

/-- **How many containers are written around the innermost value.** -/
def nesting : Written → Nat
  | .array items => deepest items + 1
  | .object members => deepestMember members + 1
  | _ => 0
  termination_by structural w => w

/-- The greatest nesting among the items of an array. -/
def deepest : List Written → Nat
  | [] => 0
  | item :: items => max item.nesting (deepest items)
  termination_by structural items => items

/-- The greatest nesting among the members of an object. -/
def deepestMember : List (Quoted × Written) → Nat
  | [] => 0
  | (_, value) :: members => max value.nesting (deepestMember members)
  termination_by structural members => members

end

/-- The deepest of items, by a fold. -/
theorem deepest_eq (items : List Written) : deepest items = (items.map nesting).foldr max 0 := by
  induction items with
  | nil => rfl
  | cons item items ih => rw [deepest, ih, List.map_cons, List.foldr_cons]

/-- The deepest of members, by a fold. -/
theorem deepestMember_eq (members : List (Quoted × Written)) :
    deepestMember members = (members.map fun m => m.2.nesting).foldr max 0 := by
  induction members with
  | nil => rfl
  | cons member members ih => rw [deepestMember, ih, List.map_cons, List.foldr_cons]

/-- A value nests at most one container deeper than the values inside. -/
theorem nesting_le_succ_iff {w : Written} {n : Nat} :
    w.nesting ≤ n + 1 ↔ ∀ u ∈ w.children, u.nesting ≤ n := by
  have hmax (l : List Nat) : l.foldr max 0 ≤ n ↔ ∀ m ∈ l, m ≤ n := by
    induction l with
    | nil => simp
    | cons m l ih => rw [List.foldr_cons, Nat.max_le, ih, List.forall_mem_cons]
  cases w with
  | array items => simp [nesting, children, deepest_eq, hmax]
  | object members =>
    simp only [nesting, children, deepestMember_eq, Nat.add_le_add_iff_right, hmax,
      List.forall_mem_map]
  | word _ | string _ => simp [nesting, children]

/-- A child is nested less deep. -/
theorem nesting_lt_of_mem_children {u w : Written} (h : u ∈ w.children) :
    u.nesting < w.nesting := by
  have hle := nesting_le_succ_iff.1 (show w.nesting ≤ w.nesting - 1 + 1 by omega) u h
  have hpos : 0 < w.nesting := by
    cases w with
    | array _ | object _ => exact Nat.succ_pos _
    | word _ | string _ => cases h
  omega

end Written

namespace BracketScan

variable {α : Type} {tokens others : List (List UInt8)} {used : List UInt8} {m n depth : Nat}

/-- **A pass over a text with these tokens** comes out where it went in, having gone `n` brackets
deeper. -/
def Scans (tokens : List (List UInt8)) (n : Nat) : Prop :=
  ∀ used depth deepest, Spaced tokens used → depth ≤ deepest →
    used.foldl step ⟨.outside, depth, deepest⟩ = ⟨.outside, depth, max deepest (depth + n)⟩

/-- A blank is plain. -/
theorem isPlain_of_isSpace {byte : UInt8} (h : isSpace byte = true) : IsPlain byte := by
  simp only [isSpace, Bool.or_eq_true, beq_iff_eq] at h
  rcases h with ((rfl | rfl) | rfl) | rfl <;> decide

/-- A byte of a word is plain. -/
theorem isPlain_of_isBare {byte : UInt8} (h : isBare byte = true) : IsPlain byte := by
  simp only [isBare, Bool.and_eq_true, Bool.not_eq_true', List.contains_eq_mem, List.mem_cons,
    List.not_mem_nil, or_false, decide_eq_false_iff_not, not_or] at h
  obtain ⟨-, hquote, -, -, hopen, hclose, hbrace, hend⟩ := h
  exact ⟨hquote, hopen, hclose, hbrace, hend⟩

/-- Blanks are of no matter to the scan. -/
theorem foldl_spaces {gap : List UInt8} (spaces : AllSpaces gap) (depth deepest : Nat) :
    gap.foldl step ⟨.outside, depth, deepest⟩ = ⟨.outside, depth, deepest⟩ :=
  foldl_plain (fun byte hbyte => isPlain_of_isSpace (spaces byte hbyte)) depth deepest

/-- Tokens one after the other go as deep as the deeper ones. -/
theorem Scans.append (h : Scans tokens m) (h' : Scans others n) :
    Scans (tokens ++ others) (max m n) := by
  intro used depth deepest hused hle
  obtain ⟨before, after, hbefore, hafter, rfl⟩ := spaced_append_iff.1 hused
  rw [List.foldl_append, h before depth deepest hbefore hle,
    h' after depth _ hafter (Nat.le_trans hle (Nat.le_max_left ..)), Nat.max_assoc,
    Nat.add_max_add_left]

/-- A token that leaves the pass as it is. -/
theorem scans_singleton {token : List UInt8} (h : ∀ depth deepest,
    token.foldl step ⟨.outside, depth, deepest⟩ = ⟨.outside, depth, deepest⟩) : Scans [token] 0 := by
  intro used depth deepest hused hle
  obtain ⟨gap, rest, spaces, hrest, rfl⟩ := spaced_cons_iff.1 hused
  rw [spaced_nil_iff.1 hrest, List.append_nil, List.foldl_append, foldl_spaces spaces, h,
    Nat.add_zero, Nat.max_eq_left hle]

/-- A token of plain bytes goes no deeper. -/
theorem scans_plain {token : List UInt8} (h : ∀ byte ∈ token, IsPlain byte) : Scans [token] 0 :=
  scans_singleton (foldl_plain h)

/-- **The inside of a string does not end it.** -/
theorem foldl_inside {inside : List UInt8} (h : Inside inside) (depth deepest : Nat) :
    inside.foldl step ⟨.inString, depth, deepest⟩ = ⟨.inString, depth, deepest⟩ := by
  induction h with
  | nil => rfl
  | plain hquote hslash _ ih => rw [List.foldl_cons, step_inString hslash hquote, ih]
  | escaped byte _ ih =>
    have hslash : step ⟨.inString, depth, deepest⟩ 0x5C = ⟨.afterBackslash, depth, deepest⟩ := rfl
    have hnext : step ⟨.afterBackslash, depth, deepest⟩ byte = ⟨.inString, depth, deepest⟩ := rfl
    rw [List.foldl_cons, List.foldl_cons, hslash, hnext, ih]

/-- A string goes no deeper, whatever is inside. -/
theorem scans_quoted (text : Quoted) : Scans [text.bytes] 0 := by
  refine scans_singleton fun depth deepest => ?_
  have hopen : step ⟨.outside, depth, deepest⟩ 0x22 = ⟨.inString, depth, deepest⟩ := rfl
  rw [Quoted.bytes, List.foldl_cons, List.foldl_append, hopen, foldl_inside text.isInside]
  rfl

/-! ## Containers -/

variable {entry : α → List (List UInt8)} {nesting : α → Nat} {as : List α} {close : UInt8}

/-- A closing bracket leads back up. -/
theorem step_close (hclose : IsClose close) (depth deepest : Nat) :
    step ⟨.outside, depth + 1, deepest⟩ close = ⟨.outside, depth, deepest⟩ := by
  rcases hclose with rfl | rfl <;> rfl

/-- The entries of a container go as deep as the deepest of them, and its bracket leads back up. -/
theorem foldl_moreTokens (hclose : IsClose close) (h : ∀ a ∈ as, Scans (entry a) (nesting a))
    (hused : Spaced (moreTokens close (as.map entry)) used) {depth deepest : Nat}
    (hle : depth + 1 ≤ deepest) :
    used.foldl step ⟨.outside, depth + 1, deepest⟩ =
      ⟨.outside, depth, max deepest (depth + 1 + (as.map nesting).foldr max 0)⟩ := by
  induction as generalizing used deepest with
  | nil =>
    obtain ⟨gap, rest, spaces, hrest, rfl⟩ := spaced_cons_iff.1 hused
    rw [spaced_nil_iff.1 hrest, List.append_nil, List.foldl_append, foldl_spaces spaces,
      List.foldl_cons, step_close hclose]
    simp [Nat.max_eq_left hle]
  | cons a as ih =>
    obtain ⟨gap, rest, spaces, hrest, rfl⟩ := spaced_cons_iff.1 hused
    obtain ⟨first, later, hfirst, hlater, rfl⟩ := spaced_append_iff.1 hrest
    have hcomma : step ⟨.outside, depth + 1, deepest⟩ 0x2C = ⟨.outside, depth + 1, deepest⟩ := rfl
    rw [List.foldl_append, foldl_spaces spaces, List.singleton_append, List.foldl_cons, hcomma,
      List.foldl_append, h a List.mem_cons_self first _ _ hfirst hle,
      ih (fun a ha => h a (List.mem_cons_of_mem _ ha)) hlater
        (Nat.le_trans hle (Nat.le_max_left ..)),
      List.map_cons, List.foldr_cons, Nat.max_assoc, Nat.add_max_add_left]

/-- **A container goes one bracket deeper** than the deepest of its entries. -/
theorem scans_container {first : UInt8} (hfirst : first = 0x5B ∨ first = 0x7B)
    (hclose : IsClose close) (h : ∀ a ∈ as, Scans (entry a) (nesting a)) :
    Scans ([first] :: listTokens close (as.map entry)) ((as.map nesting).foldr max 0 + 1) := by
  intro used depth deepest hused hle
  obtain ⟨gap, rest, spaces, hrest, rfl⟩ := spaced_cons_iff.1 hused
  have hopen : step ⟨.outside, depth, deepest⟩ first =
      ⟨.outside, depth + 1, max deepest (depth + 1)⟩ := by
    rcases hfirst with rfl | rfl <;> rfl
  have hdeepest : depth + 1 ≤ max deepest (depth + 1) := Nat.le_max_right ..
  rw [List.foldl_append, foldl_spaces spaces, List.singleton_append, List.foldl_cons, hopen]
  cases as with
  | nil =>
    have hend : Spaced (moreTokens close (([] : List α).map entry)) rest := hrest
    rw [foldl_moreTokens hclose h hend hdeepest]
    simp
  | cons a as =>
    obtain ⟨before, after, hbefore, hafter, rfl⟩ := spaced_append_iff.1 hrest
    rw [List.foldl_append, h a List.mem_cons_self before _ _ hbefore hdeepest,
      foldl_moreTokens hclose (fun a ha => h a (List.mem_cons_of_mem _ ha)) hafter
        (Nat.le_trans hdeepest (Nat.le_max_left ..))]
    simp only [List.map_cons, List.foldr_cons]
    congr 1
    omega

end BracketScan

open BracketScan

namespace Written

/-- **A pass over a value** goes as many brackets deeper as the value nests. -/
theorem scans (w : Written) : Scans w.tokens w.nesting := by
  induction w using inductionOn with
  | h w ih =>
    cases w with
    | word w => exact scans_plain fun byte hbyte => isPlain_of_isBare (w.bare byte hbyte)
    | string text => exact scans_quoted text
    | array items =>
      rw [tokens_array, arrayTokens, nesting, deepest_eq]
      exact scans_container (.inl rfl) (.inl rfl) ih
    | object members =>
      rw [tokens_object, objectTokens, nesting, deepestMember_eq]
      refine scans_container (.inr rfl) (.inr rfl) fun m hm => ?_
      have hcolon : Scans [[0x3A]] 0 := scans_plain (List.forall_mem_singleton.mpr (by decide))
      have hvalue : Scans m.2.tokens m.2.nesting := ih m.2 (List.mem_map_of_mem hm)
      have hmember := (scans_quoted m.1).append (hcolon.append hvalue)
      rwa [Nat.zero_max, Nat.zero_max] at hmember

/-- **The bracket depth of a text is the nesting of what is written in it.** -/
theorem LaidOut.bracketDepth_eq {w : Written} {bytes : List UInt8} (h : w.LaidOut bytes) :
    bracketDepth bytes = w.nesting := by
  obtain ⟨used, gap, rfl, hused, spaces⟩ := h
  rw [bracketDepth, BracketScan.start, List.foldl_append, w.scans used 0 0 hused (Nat.le_refl 0),
    foldl_spaces spaces]
  simp

/-- A tree is nested no deeper than its text is long. -/
theorem nesting_le_of_spaced {w : Written} {used : List UInt8} (h : Spaced w.tokens used) :
    w.nesting ≤ used.length := by
  have hlaid : w.LaidOut used := ⟨used, [], (List.append_nil _).symm, h, nofun⟩
  exact hlaid.bracketDepth_eq ▸ bracketDepth_le_length used

end Written

end Json

end DebugBridge

import DebugBridge.Json.Basic

/-!
# Proofs/Json/Children — induction over trees, one level at a time

What holds of the values directly inside a tree mostly decides what holds of the tree, and whether
they are items or members matters little. `Json.children` lists them, `Json.inductionOn` is
induction over them, and what `Json.Ordered` and `Json.nesting` say is split into one level and the
children.
-/

namespace DebugBridge

namespace Json

/-- The values directly inside a value. -/
def children : Json → List Json
  | .array items => items
  | .object members => members.map (·.2)
  | _ => []

/-- A child is smaller, which makes the induction on trees end. -/
theorem sizeOf_lt_of_mem_children {v w : Json} (h : w ∈ v.children) : sizeOf w < sizeOf v := by
  cases v with
  | array items =>
    have := List.sizeOf_lt_of_mem (show w ∈ items from h)
    simp only [array.sizeOf_spec]
    omega
  | object members =>
    obtain ⟨m, hm, rfl⟩ := List.mem_map.1 (show w ∈ members.map (·.2) from h)
    have := List.sizeOf_lt_of_mem hm
    obtain ⟨key, value⟩ := m
    simp only [object.sizeOf_spec, Prod.mk.sizeOf_spec] at *
    omega
  | null | bool _ | number _ | string _ => cases h

/-- **Induction over a tree**: a property of all children is passed on to their parent. -/
theorem inductionOn {P : Json → Prop} (h : ∀ v : Json, (∀ w ∈ v.children, P w) → P v) (v : Json) :
    P v :=
  h v fun w _ => inductionOn h w
  termination_by sizeOf v
  decreasing_by exact sizeOf_lt_of_mem_children ‹_›

/-- Items are ordered if each of them is. -/
theorem orderedItems_iff {items : List Json} : OrderedItems items ↔ ∀ v ∈ items, v.Ordered := by
  induction items with
  | nil => simp [OrderedItems]
  | cons v rest ih => simp [OrderedItems, ih]

/-- The values of members are ordered if each of them is. -/
theorem orderedMembers_iff {members : List (String × Json)} :
    OrderedMembers members ↔ ∀ v ∈ members.map (·.2), v.Ordered := by
  induction members with
  | nil => simp [OrderedMembers]
  | cons m rest ih => simp [OrderedMembers, ih]

/-- The children of an ordered tree are ordered. -/
theorem Ordered.children {v : Json} (h : v.Ordered) : ∀ w ∈ v.children, w.Ordered := by
  cases v with
  | array items => exact orderedItems_iff.1 h
  | object members => exact orderedMembers_iff.1 h.2
  | null | bool _ | number _ | string _ => exact fun w hw => nomatch hw

/-- No key of an ordered object is written twice. -/
theorem Ordered.nodup_keys {members : List (String × Json)} (h : (object members).Ordered) :
    (members.map (·.1)).Nodup :=
  List.pairwise_map.2 (h.1.imp fun {a b} hlt (heq : a.1 = b.1) =>
    String.lt_irrefl b.1 (heq ▸ hlt))

/-! ## Nesting -/

/-- Items are nested to a depth at most if each of them is. -/
theorem deepest_le_iff {items : List Json} {n : Nat} :
    deepest items ≤ n ↔ ∀ w ∈ items, w.nesting ≤ n := by
  induction items with
  | nil => simp [deepest]
  | cons item items ih => rw [deepest, Nat.max_le, ih, List.forall_mem_cons]

/-- Members are nested as deep as their values. -/
theorem deepestMember_eq (members : List (String × Json)) :
    deepestMember members = deepest (members.map (·.2)) := by
  induction members with
  | nil => rfl
  | cons m members ih => simp [deepestMember, deepest, ih]

/-- A tree is nested deeper than its children by one at most. -/
theorem nesting_le_succ {v : Json} {n : Nat} (h : ∀ w ∈ v.children, w.nesting ≤ n) :
    v.nesting ≤ n + 1 := by
  cases v with
  | array items => exact Nat.succ_le_succ (deepest_le_iff.2 h)
  | object members =>
    rw [nesting, deepestMember_eq]
    exact Nat.succ_le_succ (deepest_le_iff.2 h)
  | null | bool _ | number _ | string _ => exact Nat.zero_le _

/-- A child is nested less deep. -/
theorem nesting_lt_of_mem_children {v w : Json} (h : w ∈ v.children) : w.nesting < v.nesting := by
  cases v with
  | array items => exact Nat.lt_succ_of_le (deepest_le_iff.1 (Nat.le_refl _) w h)
  | object members =>
    rw [nesting, deepestMember_eq]
    exact Nat.lt_succ_of_le (deepest_le_iff.1 (Nat.le_refl _) w h)
  | null | bool _ | number _ | string _ => cases h

end Json

end DebugBridge

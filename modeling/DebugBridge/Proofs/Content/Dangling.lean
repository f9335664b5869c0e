import DebugBridge.Proofs.Content.Correspondence
import Mathlib.Algebra.BigOperators.Group.Finset.Basic
import Mathlib.Algebra.Order.BigOperators.Group.Finset

/-!
# Proofs/Content/Dangling — links to numbers without a node

A link may name a number that no node has, because nodes are handed around by their numbers and
nothing binds a number to the graph that it comes from. Such a link is read as null.

`Content.filled` is the graph with null in its place, in which no link dangles (`closed_filled`). It
is not always what is read of the graph once it has been written: that takes that no number without
a node is linked twice (`Content.DanglesOnce`).
-/

namespace DebugBridge

namespace Content

variable {c : Content} {m id : NodeId} {n : Node}

/-! ## Links -/

/-- How many links to `m` the node with the number `id` holds. -/
def links (c : Content) (m id : NodeId) : Nat :=
  (c.node? id).elim 0 fun n => n.items.count (.node m)

theorem links_of_some (h : c.node? id = some n) : c.links m id = n.items.count (.node m) := by
  rw [links, h]
  rfl

/-- **No number without a node is linked twice** within reach, neither in one container nor in
two. -/
def DanglesOnce (c : Content) : Prop :=
  ∀ m, c.node? m = none →
    (∀ i, c.Reaches i → c.links m i ≤ 1) ∧
      ∀ i j, c.Reaches i → c.Reaches j → 0 < c.links m i → 0 < c.links m j → i = j

/-- Links of a set of nodes, counted together. -/
theorem sum_links_le_one_iff {nodes : Finset NodeId} :
    ∑ i ∈ nodes, c.links m i ≤ 1 ↔
      (∀ i ∈ nodes, c.links m i ≤ 1) ∧
        ∀ i ∈ nodes, ∀ j ∈ nodes, 0 < c.links m i → 0 < c.links m j → i = j := by
  constructor
  · intro h
    refine ⟨fun i hi => ?_, fun i hi j hj hpos hpos' => ?_⟩
    · exact (Finset.single_le_sum (fun _ _ => Nat.zero_le _) hi).trans h
    · by_contra hne
      have hpair : ∑ k ∈ {i, j}, c.links m k ≤ ∑ k ∈ nodes, c.links m k :=
        Finset.sum_le_sum_of_subset (by simp [Finset.insert_subset_iff, hi, hj])
      rw [Finset.sum_pair hne] at hpair
      omega
  · rintro ⟨hone, hsame⟩
    by_cases hzero : ∀ i ∈ nodes, c.links m i = 0
    · simp [Finset.sum_eq_zero hzero]
    · obtain ⟨i, hi, hpos⟩ : ∃ i ∈ nodes, c.links m i ≠ 0 := by simpa using hzero
      have hother : ∀ j ∈ nodes, j ≠ i → c.links m j = 0 := fun j hj hne => by
        by_contra hpos'
        exact hne (hsame j hj i hi (Nat.pos_of_ne_zero hpos') (Nat.pos_of_ne_zero hpos))
      rw [Finset.sum_eq_single i hother (fun h => absurd hi h)]
      exact hone i hi

/-! ## Null in place of a link -/

/-- A slot with null in place of a link that dangles. -/
def fill (c : Content) : Item → Item
  | .node id => if (c.node? id).isSome then .node id else .null
  | x => x

/-- A container with null in place of the links that dangle. -/
def fillNode (c : Content) : Node → Node
  | .array items => .array (items.map c.fill)
  | .object members => .object (members.map c.fill)

/-- **The graph with null in place of every link that dangles.** -/
def filled (c : Content) : Content where
  nodes := c.nodes.map c.fillNode
  root := c.fill c.root

theorem fill_scalar {x : Item} (h : x.IsScalar) : c.fill x = x := by
  cases x with
  | node id => exact absurd rfl (h id)
  | null | bool _ | number _ | string _ => rfl

theorem fill_some (h : c.node? id = some n) : c.fill (.node id) = .node id := by
  simp [fill, h]

theorem fill_none (h : c.node? id = none) : c.fill (.node id) = .null := by
  simp [fill, h]

theorem node?_filled (c : Content) (id : NodeId) : c.filled.node? id = (c.node? id).map c.fillNode := by
  simp [filled, node?]

theorem items_fillNode (c : Content) (n : Node) : (c.fillNode n).items = n.items.map c.fill := by
  cases n with
  | array items => rfl
  | object members => simp [fillNode, Node.items, KeyMap.values, KeyMap.map]

/-- A link that is left has a node. -/
theorem isSome_of_fill {x : Item} (h : c.fill x = .node id) : (c.node? id).isSome := by
  unfold fill at h
  split at h
  · split at h
    · cases h
      assumption
    · cases h
  · next hx => exact absurd h (hx id)

theorem closed_filled (c : Content) : c.filled.Closed := by
  intro id hid
  rw [node?_filled, Option.isSome_map]
  cases hid with
  | root h => exact isSome_of_fill h
  | step _ here link =>
    rw [node?_filled, Option.map_eq_some_iff] at here
    obtain ⟨n, -, rfl⟩ := here
    rw [items_fillNode, List.mem_map] at link
    obtain ⟨x, -, hx⟩ := link
    exact isSome_of_fill hx

end Content

end DebugBridge

import DebugBridge.Proofs.Content.Isomorphism
import Mathlib.Algebra.BigOperators.Group.Finset.Basic
import Mathlib.Algebra.Order.BigOperators.Group.Finset

/-!
# Proofs/Content/Comparing — how long a comparison takes

`Content.Compares` runs the comparison of two graphs as a chain of steps, each of which compares one
pair of slots, and with nothing said about its end: on a cycle, that it has one is not to be seen
from the slots. It ends because the slots of a node are compared at most once (`slotsLeft`), so it
compares no more pairs than the left graph has slots, and the pair of the roots.
-/

namespace DebugBridge

namespace Content

/-- **A comparison**: with the pairs of slots `todo` left, and some nodes paired, it compares `n`
more pairs of slots and gives `result`. -/
inductive Compares (a b : Content) : Pairing → List (Item × Item) → (n : Nat) → Bool → Prop
  | done (p : Pairing) : Compares a b p [] 0 true
  | scalars {p : Pairing} {x y : Item} {rest : List (Item × Item)} {n : Nat} {result : Bool} :
    x.sameScalar y = true → Compares a b p rest n result →
    Compares a b p ((x, y) :: rest) (n + 1) result
  | unequal {p : Pairing} {x y : Item} {rest : List (Item × Item)} :
    (∀ i j : NodeId, x = .node i → y = .node j → False) → x.sameScalar y = false →
    Compares a b p ((x, y) :: rest) 1 false
  | paired {p : Pairing} {i j : NodeId} {rest : List (Item × Item)} {n : Nat} {result : Bool} :
    p.agrees? i j = some true → Compares a b p rest n result →
    Compares a b p ((.node i, .node j) :: rest) (n + 1) result
  | contradicted {p : Pairing} {i j : NodeId} {rest : List (Item × Item)} :
    p.agrees? i j = some false → Compares a b p ((.node i, .node j) :: rest) 1 false
  | missing {p : Pairing} {i j : NodeId} {rest : List (Item × Item)} {n : Nat} {result : Bool} :
    p.agrees? i j = none → a.node? i = none → b.node? j = none →
    Compares a b (p.insert i j) rest n result →
    Compares a b p ((.node i, .node j) :: rest) (n + 1) result
  | entered {p : Pairing} {i j : NodeId} {rest pairs : List (Item × Item)} {x y : Node} {n : Nat}
    {result : Bool} :
    p.agrees? i j = none → a.node? i = some x → b.node? j = some y →
    x.slotPairs? y = some pairs → Compares a b (p.insert i j) (pairs ++ rest) n result →
    Compares a b p ((.node i, .node j) :: rest) (n + 1) result
  | unlike {p : Pairing} {i j : NodeId} {rest : List (Item × Item)} {x y : Node} :
    p.agrees? i j = none → a.node? i = some x → b.node? j = some y → x.slotPairs? y = none →
    Compares a b p ((.node i, .node j) :: rest) 1 false
  | apart {p : Pairing} {i j : NodeId} {rest : List (Item × Item)} :
    p.agrees? i j = none → (a.node? i = none → b.node? j = none → False) →
    (∀ x y, a.node? i = some x → b.node? j = some y → False) →
    Compares a b p ((.node i, .node j) :: rest) 1 false

variable {a b : Content} {p : Pairing} {todo : List (Item × Item)}

/-- A comparison that comes to an end gives the answer. -/
theorem Compares.eq_matchSlots {n : Nat} {result : Bool} (h : a.Compares b p todo n result) :
    result = matchSlots a b p todo := by
  induction h with
  | done => rw [matchSlots]
  | @scalars p x y rest n result same _ ih =>
    have hlinks : ∀ i j : NodeId, x = .node i → y = .node j → False := by
      rintro i j rfl rfl
      cases same
    rw [matchSlots_scalar hlinks, same, Bool.true_and, ih]
  | unequal hlinks same => rw [matchSlots_scalar hlinks, same, Bool.false_and]
  | paired known _ ih => rw [matchSlots_known known, Bool.true_and, ih]
  | contradicted known => rw [matchSlots_known known, Bool.false_and]
  | missing free hi hj _ ih => rw [matchSlots_missing free hi hj, ih]
  | entered free hi hj hpairs _ ih => rw [matchSlots_enter free hi hj hpairs, ih]
  | unlike free hi hj hpairs => rw [matchSlots_unlike free hi hj hpairs]
  | apart free hnone hsome => rw [matchSlots_apart free hnone hsome]

/-! ## Slots that are left -/

/-- How many slots the node with a number has. -/
def slotsAt (c : Content) (id : NodeId) : Nat :=
  (c.node? id).elim 0 (·.items.length)

/-- How many slots the nodes of a graph have. -/
def slotCount (c : Content) : Nat :=
  ∑ id ∈ Finset.range c.nodes.size, c.slotsAt id

/-- How many of them belong to nodes that a walk has not entered. -/
def slotsLeft (c : Content) (visited : Std.HashMap NodeId NodeId) : Nat :=
  ∑ id ∈ (Finset.range c.nodes.size).filter (visited.contains · = false), c.slotsAt id

theorem slotsLeft_empty (c : Content) : c.slotsLeft ∅ = c.slotCount := by
  simp [slotsLeft, slotCount]

theorem filter_insert {α : Type} (c : Content) (visited : Std.HashMap NodeId α) (id : NodeId)
    (partner : α) :
    (Finset.range c.nodes.size).filter ((visited.insert id partner).contains · = false) =
      ((Finset.range c.nodes.size).filter (visited.contains · = false)).erase id := by
  ext k
  simp only [Finset.mem_filter, Finset.mem_erase, Std.HashMap.contains_insert, Bool.or_eq_false_iff,
    beq_eq_false_iff_ne]
  constructor
  · rintro ⟨hk, hne, hfree⟩
    exact ⟨fun h => hne h.symm, hk, hfree⟩
  · rintro ⟨hne, hk, hfree⟩
    exact ⟨hk, fun h => hne h.symm, hfree⟩

theorem slotsLeft_insert_le (c : Content) (visited : Std.HashMap NodeId NodeId)
    (id partner : NodeId) : c.slotsLeft (visited.insert id partner) ≤ c.slotsLeft visited := by
  rw [slotsLeft, filter_insert]
  exact Finset.sum_le_sum_of_subset (Finset.erase_subset _ _)

/-- A node that is entered takes its share away from what is left. -/
theorem add_sum_insert {α : Type} {c : Content} {visited : Std.HashMap NodeId α} {id : NodeId}
    {n : Node} (hn : c.node? id = some n) (hfree : ¬visited.contains id) (partner : α)
    (share : NodeId → Nat) :
    share id + ∑ k ∈ (Finset.range c.nodes.size).filter
        ((visited.insert id partner).contains · = false), share k =
      ∑ k ∈ (Finset.range c.nodes.size).filter (visited.contains · = false), share k := by
  have hmem : id ∈ (Finset.range c.nodes.size).filter (visited.contains · = false) :=
    Finset.mem_filter.2
      ⟨Finset.mem_range.2 (Array.getElem?_eq_some_iff.1 hn).1, by simpa using hfree⟩
  rw [filter_insert]
  exact Finset.add_sum_erase _ _ hmem

theorem slotsLeft_insert {c : Content} {visited : Std.HashMap NodeId NodeId} {id : NodeId}
    {n : Node} (hn : c.node? id = some n) (hfree : ¬visited.contains id) (partner : NodeId) :
    n.items.length + c.slotsLeft (visited.insert id partner) = c.slotsLeft visited := by
  have hslots : c.slotsAt id = n.items.length := by rw [slotsAt, hn]; rfl
  rw [← hslots]
  exact add_sum_insert hn hfree partner c.slotsAt

theorem length_slotPairs? {x y : Node} {pairs : List (Item × Item)}
    (h : x.slotPairs? y = some pairs) : pairs.length ≤ x.items.length := by
  rcases x with a | a <;> rcases y with b | b
  case array.array =>
    obtain ⟨-, heq⟩ := Option.ite_none_right_eq_some.1 h
    rw [← Option.some.inj heq, List.length_zip]
    exact Nat.min_le_left _ _
  case object.object =>
    obtain ⟨-, heq⟩ := Option.ite_none_right_eq_some.1 h
    rw [← Option.some.inj heq, List.length_zip]
    exact Nat.min_le_left _ _
  all_goals cases h

/-- **A comparison comes to an end.** Each pair that it compares was left before, or is one of the
slots of a node that it enters. -/
theorem exists_compares (p : Pairing) (todo : List (Item × Item)) :
    ∃ n ≤ todo.length + a.slotsLeft p.toRight,
      a.Compares b p todo n (matchSlots a b p todo) := by
  induction p, todo using matchSlots.induct a b with
  | case1 p =>
    rw [matchSlots]
    exact ⟨0, Nat.zero_le _, .done p⟩
  | case2 p i j rest agrees known ih =>
    obtain ⟨n, hn, h⟩ := ih
    rw [matchSlots_known known, List.length_cons]
    rcases agrees
    · exact ⟨1, by omega, .contradicted known⟩
    · exact ⟨n + 1, by omega, .paired known h⟩
  | case3 p i j rest free hi hj ih =>
    obtain ⟨n, hn, h⟩ := ih
    rw [matchSlots_missing free hi hj, List.length_cons]
    have hleft : a.slotsLeft (p.insert i j).toRight ≤ a.slotsLeft p.toRight :=
      slotsLeft_insert_le a _ i j
    exact ⟨n + 1, by omega, .missing free hi hj h⟩
  | case4 p i j rest free x y hi hj pairs hpairs ih =>
    obtain ⟨n, hn, h⟩ := ih
    rw [matchSlots_enter free hi hj hpairs, List.length_cons]
    have hleft : x.items.length + a.slotsLeft (p.insert i j).toRight = a.slotsLeft p.toRight :=
      slotsLeft_insert hi (Pairing.not_contains_of_agrees? free) j
    have hlength := length_slotPairs? hpairs
    rw [List.length_append] at hn
    exact ⟨n + 1, by omega, .entered free hi hj hpairs h⟩
  | case5 p i j rest free x y hi hj hpairs =>
    rw [matchSlots_unlike free hi hj hpairs, List.length_cons]
    exact ⟨1, by omega, .unlike free hi hj hpairs⟩
  | case6 p i j rest free hnone hsome =>
    rw [matchSlots_apart free hnone hsome, List.length_cons]
    exact ⟨1, by omega, .apart free hnone hsome⟩
  | case7 p x y rest hlinks ih =>
    obtain ⟨n, hn, h⟩ := ih
    rw [matchSlots_scalar hlinks, List.length_cons]
    rcases hsame : x.sameScalar y
    · exact ⟨1, by omega, .unequal hlinks hsame⟩
    · exact ⟨n + 1, by omega, .scalars hsame h⟩

/-- **Equality of contents is isomorphism from the root**, whatever is out of reach and whichever
links dangle; so it is an equivalence. A comparison comes to an end after at most one pair of slots
for each slot of the left graph and one for the roots, and the end gives the answer. -/
theorem same_iff_isomorphic :
    (∀ a b : Content, a.same b = true ↔ a.Isomorphic b) ∧
    (Equivalence fun a b : Content => a.same b = true) ∧
    ∀ a b : Content,
      (∃ n ≤ a.slotCount + 1, a.Compares b .empty [(a.root, b.root)] n (a.same b)) ∧
      ∀ result, (∃ n, a.Compares b .empty [(a.root, b.root)] n result) ↔ result = a.same b := by
  refine ⟨fun a b => ?_, equivalence_same, fun a b => ?_⟩
  · exact same_iff_exists_correspondence.trans isomorphic_iff_exists_correspondence.symm
  · obtain ⟨n, hn, h⟩ := exists_compares (a := a) (b := b) .empty [(a.root, b.root)]
    refine ⟨⟨n, ?_, h⟩, fun result => ⟨?_, ?_⟩⟩
    · rw [List.length_singleton, Pairing.empty, slotsLeft_empty] at hn
      omega
    · rintro ⟨m, hm⟩
      exact hm.eq_matchSlots
    · rintro rfl
      exact ⟨n, h⟩

end Content

end DebugBridge

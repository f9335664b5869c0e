import DebugBridge.Content.Matching
import Mathlib.Data.Option.Basic
import Mathlib.Data.List.Forall2
import Mathlib.Logic.Relator

/-!
# Proofs/Content/Correspondence — equal graphs, without the walk

Two contents are to be equal when their nodes correspond one to one, along with their slots. This is
said here without the walk: a relation between node numbers, right and left unique, that relates the
roots and whose related nodes have related slots. The walk of `Content.same` finds such a relation
wherever there is one (`same_of_correspondence`): what it has paired so far is part of the relation,
so no pair of links that it meets can contradict it.
-/

namespace DebugBridge

/-- Whether doubles are the same does not depend on their order. -/
theorem Double.same_comm (x y : Double) : x.same y = y.same x := by
  simp only [Double.same, Bool.and_comm, BEq.comm]

/-- Whether numbers are the same does not depend on their order. -/
theorem Number.same_comm (x y : Number) : x.same y = y.same x := by
  rcases x with ⟨a, _⟩ | a <;> rcases y with ⟨b, _⟩ | b
  · simp only [Number.same, BEq.comm]
  · rfl
  · rfl
  · exact Double.same_comm a b

/-! ## Slots and nodes -/

namespace Item

/-- Two slots correspond along a relation of nodes: equal scalars, or links to related nodes. -/
inductive Corresponds (R : NodeId → NodeId → Prop) : Item → Item → Prop
  | scalar {x y : Item} (same : x.sameScalar y = true) : Corresponds R x y
  | node {i j : NodeId} (related : R i j) : Corresponds R (.node i) (.node j)

/-- Whether a slot holds no link. -/
def IsScalar (x : Item) : Prop := ∀ id, x ≠ .node id

/-- A scalar is the same as itself. -/
theorem sameScalar_self {x : Item} (h : x.IsScalar) : x.sameScalar x = true := by
  cases x with
  | null => rfl
  | bool value => simp [sameScalar]
  | number value =>
    cases value with
    | integer value fits => simp [sameScalar, Number.same]
    | real value => simp [sameScalar, Number.same, Double.same]
  | string text => simp [sameScalar]
  | node id => exact absurd rfl (h id)

/-- A link is no scalar. -/
theorem not_sameScalar_node (i : NodeId) (y : Item) : (Item.node i).sameScalar y = false := by
  cases y <;> rfl

/-- Links correspond if what they link to is related. -/
theorem corresponds_node_iff {R : NodeId → NodeId → Prop} {i j : NodeId} :
    Corresponds R (.node i) (.node j) ↔ R i j := by
  refine ⟨fun h => ?_, .node⟩
  cases h with
  | scalar same => exact absurd same (by simp [not_sameScalar_node])
  | node related => exact related

/-- Whether scalars are the same does not depend on their order. -/
theorem sameScalar_comm (x y : Item) : x.sameScalar y = y.sameScalar x := by
  rcases x with _ | _ | _ | _ | _ <;> rcases y with _ | _ | _ | _ | _ <;>
    simp only [sameScalar, Number.same_comm, Bool.beq_comm]

/-- Only scalars are the same as scalars. -/
theorem isScalar_of_sameScalar {x y : Item} (h : x.sameScalar y = true) :
    x.IsScalar ∧ y.IsScalar := by
  constructor
  · rintro id rfl
    rw [not_sameScalar_node] at h
    cases h
  · rintro id rfl
    rw [sameScalar_comm, not_sameScalar_node] at h
    cases h

theorem Corresponds.symm {R : NodeId → NodeId → Prop} {x y : Item} (h : Corresponds R x y) :
    Corresponds (flip R) y x := by
  rcases h with same | related
  · exact .scalar (sameScalar_comm x y ▸ same)
  · exact .node related

end Item

namespace Node

/-- Two containers correspond: arrays slot by slot, objects with the same keys member by member. -/
inductive Corresponds (R : NodeId → NodeId → Prop) : Node → Node → Prop
  | array {a b : List Item} (items : List.Forall₂ (Item.Corresponds R) a b) :
      Corresponds R (.array a) (.array b)
  | object {a b : KeyMap Item} (keys : a.keys = b.keys)
      (values : List.Forall₂ (Item.Corresponds R) a.values b.values) :
      Corresponds R (.object a) (.object b)

theorem Corresponds.symm {R : NodeId → NodeId → Prop} {x y : Node} (h : Corresponds R x y) :
    Corresponds (flip R) y x := by
  have hslots {a b : List Item} (h : List.Forall₂ (Item.Corresponds R) a b) :
      List.Forall₂ (Item.Corresponds (flip R)) b a :=
    (List.Forall₂.imp (fun _ _ h => h.symm) h).flip
  rcases h with items | ⟨keys, values⟩
  · exact .array (hslots items)
  · exact .object keys.symm (hslots values)

/-- The walk goes from corresponding containers to the pairs of their slots, which correspond. -/
theorem Corresponds.slotPairs? {R : NodeId → NodeId → Prop} {x y : Node} (h : Corresponds R x y) :
    ∃ pairs, x.slotPairs? y = some pairs ∧ ∀ q ∈ pairs, Item.Corresponds R q.1 q.2 := by
  cases h with
  | array items =>
    obtain ⟨length, zip⟩ := List.forall₂_iff_zip.1 items
    exact ⟨_, if_pos length, fun q hq => zip hq⟩
  | object keys values =>
    obtain ⟨-, zip⟩ := List.forall₂_iff_zip.1 values
    exact ⟨_, if_pos keys, fun q hq => zip hq⟩

end Node

/-! ## Graphs -/

namespace Content

/-- The numbers that a graph reaches from its root, with or without a node. -/
inductive Reaches (c : Content) : NodeId → Prop
  | root {id : NodeId} (h : c.root = .node id) : Reaches c id
  | step {id j : NodeId} {n : Node} (before : Reaches c id) (here : c.node? id = some n)
      (link : .node j ∈ n.items) : Reaches c j

/-- **No link within reach dangles**: every number that the graph reaches has a node. -/
def Closed (c : Content) : Prop :=
  ∀ id, c.Reaches id → (c.node? id).isSome

/-- A graph is closed when none of its links dangles, within reach or not. -/
theorem closed_of_links {c : Content} (hroot : ∀ id ∈ c.root.node?, id < c.nodes.size)
    (hlinks : ∀ n ∈ c.nodes.toList, ∀ x ∈ n.items, ∀ id ∈ x.node?, id < c.nodes.size) :
    c.Closed := by
  have hnode {id : NodeId} (h : id < c.nodes.size) : (c.node? id).isSome := by
    simp [node?, h]
  intro id hid
  rcases hid with hr | ⟨-, hn, link⟩
  · exact hnode (hroot id (by simp [hr, Item.node?]))
  · exact hnode (hlinks _ (Array.mem_toList_iff.2 (Array.mem_of_getElem? hn)) _ link id rfl)

/-- **A one-to-one correspondence of two graphs** from their roots on. -/
structure Correspondence (a b : Content) (R : NodeId → NodeId → Prop) : Prop where
  root : Item.Corresponds R a.root b.root
  unique : Relator.BiUnique R
  /-- Related numbers have corresponding nodes, or neither has a node. -/
  nodes : ∀ {i j}, R i j → Option.Rel (Node.Corresponds R) (a.node? i) (b.node? j)

/-- A correspondence can be read from the other side. -/
theorem Correspondence.symm {a b : Content} {R : NodeId → NodeId → Prop}
    (h : Correspondence a b R) : Correspondence b a (flip R) where
  root := h.root.symm
  unique := ⟨fun _ _ _ hij hij' => h.unique.2 hij hij', fun _ _ _ hij hij' => h.unique.1 hij hij'⟩
  nodes {i j} hij := by
    have hnodes := h.nodes hij
    generalize a.node? j = x at hnodes
    generalize b.node? i = y at hnodes
    rcases hnodes with hxy | _
    · exact .some hxy.symm
    · exact .none

end Content

/-! ## The walk agrees with every correspondence -/

namespace Pairing

/-- What is paired is related, and the two directions say the same. -/
structure Within (p : Pairing) (R : NodeId → NodeId → Prop) : Prop where
  related : ∀ {i j : NodeId}, p.toRight[i]? = some j → R i j
  inverse : ∀ {i j : NodeId}, p.toLeft[j]? = some i ↔ p.toRight[i]? = some j

/-- No pairs at all are within any relation. -/
theorem within_empty (R : NodeId → NodeId → Prop) : empty.Within R :=
  ⟨by simp [empty], by simp [empty]⟩

/-- A related pair agrees with what is paired, if either of the two nodes has a partner. -/
theorem Within.agrees? {p : Pairing} {R : NodeId → NodeId → Prop} (h : p.Within R)
    (unique : Relator.BiUnique R) {i j : NodeId} (hij : R i j) {agrees : Bool}
    (known : p.agrees? i j = some agrees) : agrees = true := by
  unfold Pairing.agrees? at known
  split at known
  · next partner hi =>
    obtain rfl : partner = j := unique.2 (h.related hi) hij
    simpa using known.symm
  · next i' hi hj =>
    have hi' := h.inverse.1 hj
    obtain rfl : i' = i := unique.1 (h.related hi') hij
    exact absurd (hi.symm.trans hi') (by simp)
  · cases known

/-- A pairing stays within a relation if the new pair is. -/
theorem Within.insert {p : Pairing} {R : NodeId → NodeId → Prop} (h : p.Within R) {i j : NodeId}
    (hij : R i j) (free : p.agrees? i j = none) : (p.insert i j).Within R := by
  have hi : p.toRight[i]? = none := by
    unfold Pairing.agrees? at free
    split at free <;> simp_all
  have hj : p.toLeft[j]? = none := by
    unfold Pairing.agrees? at free
    split at free <;> simp_all
  constructor
  · intro i' j' h'
    simp only [Pairing.insert, Std.HashMap.getElem?_insert, beq_iff_eq] at h'
    split at h'
    · cases h'; simp_all
    · exact h.related h'
  · intro i' j'
    have hinv := h.inverse (i := i') (j := j')
    simp only [Pairing.insert, Std.HashMap.getElem?_insert, beq_iff_eq]
    by_cases hii : i = i' <;> by_cases hjj : j = j' <;> simp_all

end Pairing

namespace Content

variable {a b : Content} {p : Pairing} {i j : NodeId} {rest : List (Item × Item)}

/-- A pair with a known node matches if the two are partners. -/
theorem matchSlots_known {agrees : Bool} (known : p.agrees? i j = some agrees) :
    matchSlots a b p ((.node i, .node j) :: rest) = (agrees && matchSlots a b p rest) := by
  rw [matchSlots, known]

/-- Two links to nothing match, and become partners. -/
theorem matchSlots_missing (free : p.agrees? i j = none) (hi : a.node? i = none)
    (hj : b.node? j = none) :
    matchSlots a b p ((.node i, .node j) :: rest) = matchSlots a b (p.insert i j) rest := by
  rw [matchSlots, free]
  dsimp only
  split <;> simp_all

/-- Nodes that are met for the first time become partners, and their slots are matched next. -/
theorem matchSlots_enter {x y : Node} {pairs : List (Item × Item)} (free : p.agrees? i j = none)
    (hi : a.node? i = some x) (hj : b.node? j = some y) (hpairs : x.slotPairs? y = some pairs) :
    matchSlots a b p ((.node i, .node j) :: rest) =
      matchSlots a b (p.insert i j) (pairs ++ rest) := by
  rw [matchSlots, free]
  dsimp only
  split <;> simp_all

/-- Slots that are not both links match as scalars. -/
theorem matchSlots_scalar {x y : Item}
    (hlinks : ∀ i j : NodeId, x = .node i → y = .node j → False) :
    matchSlots a b p ((x, y) :: rest) = (x.sameScalar y && matchSlots a b p rest) := by
  cases x <;> cases y <;> first | exact (hlinks _ _ rfl rfl).elim | rw [matchSlots]; simp

/-- Nodes whose slots cannot be paired do not match. -/
theorem matchSlots_unlike {x y : Node} (free : p.agrees? i j = none) (hi : a.node? i = some x)
    (hj : b.node? j = some y) (hpairs : x.slotPairs? y = none) :
    matchSlots a b p ((.node i, .node j) :: rest) = false := by
  rw [matchSlots, free]
  dsimp only
  split <;> simp_all

/-- A link to a node and a link to nothing do not match. -/
theorem matchSlots_apart (free : p.agrees? i j = none)
    (hnone : a.node? i = none → b.node? j = none → False)
    (hsome : ∀ x y, a.node? i = some x → b.node? j = some y → False) :
    matchSlots a b p ((.node i, .node j) :: rest) = false := by
  rw [matchSlots, free]
  dsimp only
  split
  · next hi hj => exact (hnone hi hj).elim
  · next x y hi hj => exact (hsome x y hi hj).elim
  · rfl

/-- Pairs of slots that all correspond are found the same, whatever part of the correspondence is
paired already. -/
theorem matchSlots_of_correspondence {R : NodeId → NodeId → Prop}
    (h : Correspondence a b R) (p : Pairing) (todo : List (Item × Item)) (hp : p.Within R)
    (htodo : ∀ q ∈ todo, Item.Corresponds R q.1 q.2) : matchSlots a b p todo = true := by
  induction p, todo using matchSlots.induct a b with
  | case1 p => rw [matchSlots]
  | case2 p i j rest agrees known ih =>
    have hij : R i j := Item.corresponds_node_iff.1 (htodo _ List.mem_cons_self)
    rw [matchSlots_known known, hp.agrees? h.unique hij known, Bool.true_and]
    exact ih hp fun q hq => htodo q (List.mem_cons_of_mem _ hq)
  | case3 p i j rest free hi hj ih =>
    have hij : R i j := Item.corresponds_node_iff.1 (htodo _ List.mem_cons_self)
    rw [matchSlots_missing free hi hj]
    exact ih (hp.insert hij free) fun q hq => htodo q (List.mem_cons_of_mem _ hq)
  | case4 p i j rest free x y hi hj pairs hpairs ih =>
    have hij : R i j := Item.corresponds_node_iff.1 (htodo _ List.mem_cons_self)
    have hxy : Node.Corresponds R x y := by simpa [hi, hj] using h.nodes hij
    obtain ⟨pairs', hpairs', hslots⟩ := hxy.slotPairs?
    obtain rfl : pairs = pairs' := Option.some.inj (hpairs.symm.trans hpairs')
    rw [matchSlots_enter free hi hj hpairs]
    refine ih (hp.insert hij free) fun q hq => ?_
    rcases List.mem_append.1 hq with hq | hq
    · exact hslots q hq
    · exact htodo q (List.mem_cons_of_mem _ hq)
  | case5 p i j rest free x y hi hj hpairs =>
    have hij : R i j := Item.corresponds_node_iff.1 (htodo _ List.mem_cons_self)
    have hxy : Node.Corresponds R x y := by simpa [hi, hj] using h.nodes hij
    obtain ⟨pairs', hpairs', -⟩ := hxy.slotPairs?
    exact absurd (hpairs.symm.trans hpairs') (by simp)
  | case6 p i j rest free hnone hsome =>
    have hij : R i j := Item.corresponds_node_iff.1 (htodo _ List.mem_cons_self)
    have hnodes := h.nodes hij
    cases hi : a.node? i <;> cases hj : b.node? j <;> rw [hi, hj] at hnodes
    · exact (hnone hi hj).elim
    · cases hnodes
    · cases hnodes
    · exact (hsome _ _ hi hj).elim
  | case7 p x y rest hlinks ih =>
    have hxy : Item.Corresponds R x y := htodo _ List.mem_cons_self
    cases hxy with
    | scalar same =>
      rw [matchSlots_scalar hlinks, same, Bool.true_and]
      exact ih hp fun q hq => htodo q (List.mem_cons_of_mem _ hq)
    | node related => exact (hlinks _ _ rfl rfl).elim

/-- **Graphs that correspond are equal.** -/
theorem same_of_correspondence {R : NodeId → NodeId → Prop}
    (h : Correspondence a b R) : a.same b = true :=
  matchSlots_of_correspondence h .empty _ (Pairing.within_empty R) fun q hq => by
    obtain rfl := List.mem_singleton.1 hq
    exact h.root

end Content

end DebugBridge

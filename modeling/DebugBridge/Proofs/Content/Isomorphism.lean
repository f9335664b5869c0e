import DebugBridge.Proofs.Content.Correspondence
import Mathlib.Logic.Equiv.Defs
import Mathlib.Logic.Relation

/-!
# Proofs/Content/Isomorphism — equality of contents is isomorphism from the root

An **isomorphism** of two contents is a one-to-one map between the numbers that their roots reach
which carries the root slot to the root slot and every container, slot by slot, to the container at
the other end; a number without a node goes to a number without a node.

```
  same_of_correspondence       a correspondence            makes the walk succeed
  exists_correspondence_of_same a walk that succeeds        comes from a correspondence
  Correspondence.isomorphic    a correspondence            is an isomorphism within reach
```

The walk takes a pair of nodes for good before it has looked inside, which is what lets it get
through a cycle. That this is right shows only at the end: the pairing with which the walk comes out
holds all that was taken, and relates the slots of every two nodes in it.
-/

namespace DebugBridge

/-! ## Slots and containers -/

namespace Item

variable {R S : NodeId → NodeId → Prop} {x y z : Item}

/-- Only the links of a slot matter. -/
theorem Corresponds.imp (h : Corresponds R x y)
    (himp : ∀ i j, x = .node i → y = .node j → R i j → S i j) : Corresponds S x y := by
  cases h with
  | scalar same => exact .scalar same
  | node related => exact .node (himp _ _ rfl rfl related)

/-- Only a link corresponds to a link. -/
theorem Corresponds.exists_link {i : NodeId} (h : Corresponds R (.node i) y) :
    ∃ j, y = .node j ∧ R i j := by
  cases h with
  | scalar same => exact absurd same (by simp [not_sameScalar_node])
  | node related => exact ⟨_, rfl, related⟩

theorem corresponds_refl (x : Item) : Corresponds Eq x x := by
  by_cases h : x.IsScalar
  · exact .scalar (sameScalar_self h)
  · obtain ⟨id, rfl⟩ : ∃ id, x = .node id := by simpa [IsScalar] using h
    exact .node rfl

end Item

/-- Doubles that are the same as a third are the same. -/
theorem Double.same_trans {x y z : Double} (h : x.same y = true) (h' : y.same z = true) :
    x.same z = true := by
  simp only [Double.same, Bool.or_eq_true, Bool.and_eq_true, beq_iff_eq] at h h' ⊢
  rcases h with ⟨hx, hy⟩ | rfl
  · rcases h' with ⟨-, hz⟩ | rfl
    · exact Or.inl ⟨hx, hz⟩
    · exact Or.inl ⟨hx, hy⟩
  · exact h'

/-- Numbers that are the same as a third are the same. -/
theorem Number.same_trans {x y z : Number} (h : x.same y = true) (h' : y.same z = true) :
    x.same z = true := by
  rcases x with ⟨a, _⟩ | a <;> rcases y with ⟨b, _⟩ | b <;> rcases z with ⟨c, _⟩ | c
  case integer.integer.integer =>
    simp only [Number.same, beq_iff_eq] at h h' ⊢
    exact h.trans h'
  case real.real.real => exact Double.same_trans h h'
  all_goals first | cases h | cases h'

namespace Item

variable {R S : NodeId → NodeId → Prop} {x y z : Item}

/-- Scalars that are the same as a third are the same. -/
theorem sameScalar_trans (h : x.sameScalar y = true) (h' : y.sameScalar z = true) :
    x.sameScalar z = true := by
  rcases x with _ | _ | _ | _ | _ <;> rcases y with _ | _ | _ | _ | _ <;>
    first | cases h | skip
  all_goals rcases z with _ | _ | _ | _ | _ <;> first | cases h' | skip
  case null => rfl
  case number => exact Number.same_trans h h'
  all_goals
    simp only [sameScalar, beq_iff_eq] at h h' ⊢
    exact h.trans h'

theorem Corresponds.comp (h : Corresponds R x y) (h' : Corresponds S y z) :
    Corresponds (Relation.Comp R S) x z := by
  cases h with
  | scalar same =>
    cases h' with
    | scalar same' => exact .scalar (sameScalar_trans same same')
    | node => exact absurd same (by rw [sameScalar_comm, not_sameScalar_node]; simp)
  | node related =>
    cases h' with
    | scalar same' => exact absurd same' (by rw [not_sameScalar_node]; simp)
    | node related' => exact .node ⟨_, related, related'⟩

end Item

namespace Node

variable {R S : NodeId → NodeId → Prop} {x y z : Node}

/-- The items of corresponding nodes correspond one by one. -/
theorem Corresponds.items (h : Corresponds R x y) :
    List.Forall₂ (Item.Corresponds R) x.items y.items := by
  cases h with
  | array items => exact items
  | object keys values => exact values

/-- Items correspond under another relation, if it relates what they link to. -/
theorem forall₂_imp_of_mem {a b : List Item} (h : List.Forall₂ (Item.Corresponds R) a b)
    (himp : ∀ i j, .node i ∈ a → .node j ∈ b → R i j → S i j) :
    List.Forall₂ (Item.Corresponds S) a b := by
  induction h with
  | nil => exact .nil
  | cons head _ ih =>
    refine .cons (head.imp fun i j hi hj => ?_) (ih fun i j hi hj =>
      himp i j (List.mem_cons_of_mem _ hi) (List.mem_cons_of_mem _ hj))
    subst hi hj
    exact himp i j List.mem_cons_self List.mem_cons_self

/-- Only the links of a container matter. -/
theorem Corresponds.imp (h : Corresponds R x y)
    (himp : ∀ i j, .node i ∈ x.items → .node j ∈ y.items → R i j → S i j) :
    Corresponds S x y := by
  cases h with
  | array items => exact .array (forall₂_imp_of_mem items himp)
  | object keys values => exact .object keys (forall₂_imp_of_mem values himp)

/-- A link of a container has a partner in a container that corresponds. -/
theorem Corresponds.exists_link (h : Corresponds R x y) {i : NodeId} (hi : .node i ∈ x.items) :
    ∃ j, .node j ∈ y.items ∧ R i j := by
  obtain ⟨k, hk⟩ := List.mem_iff_get.1 hi
  have hlt : (k : ℕ) < y.items.length := h.items.length_eq ▸ k.isLt
  have hslots := h.items.get k.isLt hlt
  rw [show x.items.get ⟨k, k.isLt⟩ = .node i from hk] at hslots
  obtain ⟨j, hj, hij⟩ := hslots.exists_link
  exact ⟨j, hj ▸ List.get_mem _ _, hij⟩

theorem corresponds_refl (x : Node) : Corresponds Eq x x := by
  have hslots (a : List Item) : List.Forall₂ (Item.Corresponds Eq) a a :=
    List.forall₂_same.2 fun x _ => x.corresponds_refl
  rcases x with items | members
  · exact .array (hslots items)
  · exact .object rfl (hslots members.values)

/-- Items correspond that correspond to the same items in between. -/
theorem forall₂_comp {a b c : List Item} (h : List.Forall₂ (Item.Corresponds R) a b)
    (h' : List.Forall₂ (Item.Corresponds S) b c) :
    List.Forall₂ (Item.Corresponds (Relation.Comp R S)) a c := by
  induction h generalizing c with
  | nil =>
    cases h'
    exact .nil
  | cons head _ ih =>
    cases h' with
    | cons head' rest' => exact .cons (head.comp head') (ih rest')

theorem Corresponds.comp (h : Corresponds R x y) (h' : Corresponds S y z) :
    Corresponds (Relation.Comp R S) x z := by
  cases h with
  | array items =>
    cases h' with
    | array items' => exact .array (forall₂_comp items items')
  | object keys values =>
    cases h' with
    | object keys' values' => exact .object (keys.trans keys') (forall₂_comp values values')

/-- Where the pairs of slots of two containers correspond, the containers do. -/
theorem corresponds_of_slotPairs? {pairs : List (Item × Item)} (h : x.slotPairs? y = some pairs)
    (hpairs : ∀ q ∈ pairs, Item.Corresponds R q.1 q.2) : Corresponds R x y := by
  have hzip {a b : List Item} (hlength : a.length = b.length) (heq : a.zip b = pairs) :
      List.Forall₂ (Item.Corresponds R) a b :=
    List.forall₂_iff_zip.2 ⟨hlength, fun hmem => hpairs _ (heq ▸ hmem)⟩
  rcases x with a | a <;> rcases y with b | b
  case array.array =>
    obtain ⟨hlength, heq⟩ := Option.ite_none_right_eq_some.1 h
    exact .array (hzip hlength (Option.some.inj heq))
  case object.object =>
    obtain ⟨hkeys, heq⟩ := Option.ite_none_right_eq_some.1 h
    have hlength : a.values.length = b.values.length := by
      have := congrArg List.length hkeys
      simpa [KeyMap.keys, KeyMap.values] using this
    exact .object hkeys (hzip hlength (Option.some.inj heq))
  all_goals cases h

end Node

/-! ## Correspondences -/

namespace Content

variable {a b c : Content} {R S : NodeId → NodeId → Prop}

/-- A content corresponds to itself. -/
theorem correspondence_refl (a : Content) : a.Correspondence a Eq where
  root := a.root.corresponds_refl
  unique := ⟨fun _ _ _ h h' => h.trans h'.symm, fun _ _ _ h h' => h.symm.trans h'⟩
  nodes {i j} hij := by
    subst hij
    rcases a.node? i with _ | n
    · exact .none
    · exact .some n.corresponds_refl

/-- Contents correspond that correspond to one in between. -/
theorem Correspondence.comp (h : a.Correspondence b R) (h' : b.Correspondence c S) :
    a.Correspondence c (Relation.Comp R S) where
  root := h.root.comp h'.root
  unique := by
    constructor
    · rintro i i' k ⟨j, hij, hjk⟩ ⟨j', hij', hjk'⟩
      obtain rfl := h'.unique.1 hjk hjk'
      exact h.unique.1 hij hij'
    · rintro i k k' ⟨j, hij, hjk⟩ ⟨j', hij', hjk'⟩
      obtain rfl := h.unique.2 hij hij'
      exact h'.unique.2 hjk hjk'
  nodes := by
    rintro i k ⟨j, hij, hjk⟩
    have hfirst := h.nodes hij
    have hsecond := h'.nodes hjk
    generalize a.node? i = x at hfirst
    generalize b.node? j = y at hfirst hsecond
    generalize c.node? k = z at hsecond
    cases hfirst with
    | some hxy =>
      cases hsecond with
      | some hyz => exact .some (hxy.comp hyz)
    | none =>
      cases hsecond with
      | none => exact .none

end Content

/-! ## What a walk that succeeds has found -/

namespace Pairing

/-- Whether two nodes are paired. -/
def Pairs (p : Pairing) (i j : NodeId) : Prop :=
  p.toRight[i]? = some j

/-- **The two directions of a pairing say the same.** -/
abbrev Coherent (p : Pairing) : Prop :=
  p.Within p.Pairs

/-- Coherent pairs have one partner on each side. -/
theorem Coherent.biUnique {p : Pairing} (h : p.Coherent) : Relator.BiUnique p.Pairs := by
  constructor
  · intro i i' j hij hij'
    exact Option.some.inj ((h.inverse.2 hij).symm.trans (h.inverse.2 hij'))
  · intro i j j' hij hij'
    exact Option.some.inj (hij.symm.trans hij')

/-- No pairs at all are coherent. -/
theorem coherent_empty : empty.Coherent :=
  within_empty _

/-- The pairs after a new one. -/
theorem pairs_insert {p : Pairing} {i j i' j' : NodeId} :
    (p.insert i j).Pairs i' j' ↔ if i = i' then j = j' else p.Pairs i' j' := by
  rw [Pairs, insert, Std.HashMap.getElem?_insert]
  by_cases h : i = i' <;> simp [h, Pairs]

/-- A new pair is one of the pairs. -/
theorem pairs_insert_self (p : Pairing) (i j : NodeId) : (p.insert i j).Pairs i j :=
  pairs_insert.2 (by rw [if_pos rfl])

/-- A node that has no partner is in no pair. -/
theorem free_left {p : Pairing} {i j : NodeId} (free : p.agrees? i j = none) (k : NodeId) :
    ¬p.Pairs i k := by
  intro h
  rw [Pairs] at h
  simp [agrees?, h] at free

/-- A pair stays when a new one is added. -/
theorem Pairs.insert {p : Pairing} {i j i' j' : NodeId} (h : p.Pairs i' j')
    (free : p.agrees? i j = none) : (p.insert i j).Pairs i' j' := by
  refine pairs_insert.2 ?_
  split
  · next heq => exact absurd h (heq ▸ free_left free j')
  · exact h

/-- Taking a free pair keeps a pairing coherent. -/
theorem Coherent.insert {p : Pairing} (h : p.Coherent) {i j : NodeId}
    (free : p.agrees? i j = none) : (p.insert i j).Coherent := by
  have hwithin : p.Within (p.insert i j).Pairs :=
    ⟨fun hij => Pairs.insert hij free, h.inverse⟩
  exact hwithin.insert (pairs_insert_self p i j) free

/-- A pair that agrees with a coherent pairing is in it. -/
theorem Coherent.pairs_of_agrees {p : Pairing} {i j : NodeId}
    (known : p.agrees? i j = some true) : p.Pairs i j := by
  unfold agrees? at known
  split at known
  · next partner hi =>
    obtain rfl : partner = j := by simpa using known
    exact hi
  · cases known
  · cases known

end Pairing

namespace Content

variable {a b : Content}

/-- **A pairing that a walk comes out with** which begins with `p` and has `todo` left. -/
structure Completes (a b : Content) (p : Pairing) (todo : List (Item × Item)) (q : Pairing) :
    Prop where
  coherent : q.Coherent
  mono : ∀ {i j}, p.Pairs i j → q.Pairs i j
  todo : ∀ pair ∈ todo, Item.Corresponds q.Pairs pair.1 pair.2
  /-- Whatever the walk has added corresponds. -/
  added : ∀ {i j}, q.Pairs i j → p.Pairs i j ∨
    Option.Rel (Node.Corresponds q.Pairs) (a.node? i) (b.node? j)

variable {p q : Pairing} {i j : NodeId} {pairs rest : List (Item × Item)}

/-- A pair of slots that needs no pair of nodes to be taken. -/
theorem Completes.cons {pair : Item × Item} (h : a.Completes b p rest q)
    (hpair : Item.Corresponds q.Pairs pair.1 pair.2) : a.Completes b p (pair :: rest) q where
  coherent := h.coherent
  mono := h.mono
  todo := List.forall_mem_cons.2 ⟨hpair, h.todo⟩
  added := h.added

/-- A pair of nodes that the walk has taken: what it comes out with relates what is behind them. -/
theorem Completes.take (free : p.agrees? i j = none)
    (h : a.Completes b (p.insert i j) (pairs ++ rest) q)
    (hnodes : (∀ pair ∈ pairs, Item.Corresponds q.Pairs pair.1 pair.2) →
      Option.Rel (Node.Corresponds q.Pairs) (a.node? i) (b.node? j)) :
    a.Completes b p ((.node i, .node j) :: rest) q where
  coherent := h.coherent
  mono hij := h.mono (hij.insert free)
  todo := by
    refine List.forall_mem_cons.2 ⟨.node (h.mono (p.pairs_insert_self i j)), fun pair hpair => ?_⟩
    exact h.todo pair (List.mem_append_right _ hpair)
  added := by
    intro i' j' hij
    rcases h.added hij with hbefore | hrel
    · rw [Pairing.pairs_insert] at hbefore
      split at hbefore
      · next hi =>
        subst hi hbefore
        exact Or.inr (hnodes fun pair hpair => h.todo pair (List.mem_append_left _ hpair))
      · exact Or.inl hbefore
    · exact Or.inr hrel

/-- **A walk that succeeds comes out with a pairing** in which all that it has met corresponds. -/
theorem exists_completes_of_matchSlots (p : Pairing) (todo : List (Item × Item))
    (hp : p.Coherent) (h : matchSlots a b p todo = true) : ∃ q, a.Completes b p todo q := by
  induction p, todo using matchSlots.induct a b with
  | case1 p => exact ⟨p, hp, id, by simp, Or.inl⟩
  | case2 p i j rest agrees known ih =>
    rw [matchSlots_known known, Bool.and_eq_true] at h
    obtain ⟨rfl, h⟩ := h
    obtain ⟨q, hq⟩ := ih hp h
    exact ⟨q, hq.cons (.node (hq.mono (Pairing.Coherent.pairs_of_agrees known)))⟩
  | case3 p i j rest free hi hj ih =>
    rw [matchSlots_missing free hi hj] at h
    obtain ⟨q, hq⟩ := ih (hp.insert free) h
    have hslots : a.Completes b (p.insert i j) ([] ++ rest) q := hq
    refine ⟨q, hslots.take free fun _ => ?_⟩
    rw [hi, hj]
    exact .none
  | case4 p i j rest free x y hi hj pairs hpairs ih =>
    rw [matchSlots_enter free hi hj hpairs] at h
    obtain ⟨q, hq⟩ := ih (hp.insert free) h
    refine ⟨q, hq.take free fun hslots => ?_⟩
    rw [hi, hj]
    exact .some (Node.corresponds_of_slotPairs? hpairs hslots)
  | case5 p i j rest free x y hi hj hpairs =>
    rw [matchSlots_unlike free hi hj hpairs] at h
    cases h
  | case6 p i j rest free hnone hsome =>
    rw [matchSlots_apart free hnone hsome] at h
    cases h
  | case7 p x y rest hlinks ih =>
    rw [matchSlots_scalar hlinks, Bool.and_eq_true] at h
    obtain ⟨q, hq⟩ := ih hp h.2
    exact ⟨q, hq.cons (.scalar h.1)⟩

/-- **Equal graphs correspond.** -/
theorem exists_correspondence_of_same (h : a.same b = true) : ∃ R, a.Correspondence b R := by
  obtain ⟨q, hq⟩ := exists_completes_of_matchSlots .empty _ Pairing.coherent_empty h
  refine ⟨q.Pairs, hq.todo _ List.mem_cons_self, hq.coherent.biUnique, fun hij => ?_⟩
  refine (hq.added hij).resolve_left ?_
  simp [Pairing.Pairs, Pairing.empty]

/-- **Equality is correspondence.** -/
theorem same_iff_exists_correspondence : a.same b = true ↔ ∃ R, a.Correspondence b R :=
  ⟨exists_correspondence_of_same, fun ⟨_, h⟩ => same_of_correspondence h⟩

/-- **To be the same content is an equivalence.** -/
theorem equivalence_same : Equivalence fun a b : Content => a.same b = true where
  refl a := same_of_correspondence a.correspondence_refl
  symm h := by
    obtain ⟨R, hR⟩ := exists_correspondence_of_same h
    exact same_of_correspondence hR.symm
  trans h h' := by
    obtain ⟨R, hR⟩ := exists_correspondence_of_same h
    obtain ⟨S, hS⟩ := exists_correspondence_of_same h'
    exact same_of_correspondence (hR.comp hS)

/-! ## Isomorphisms -/

/-- The numbers that a graph reaches. -/
abbrev Reach (c : Content) : Type := {id // c.Reaches id}

/-- Whether a map takes one number within reach to another. -/
def Takes (f : a.Reach ≃ b.Reach) (i j : NodeId) : Prop :=
  ∃ h : a.Reaches i, (f ⟨i, h⟩ : NodeId) = j

/-- **An isomorphism of graphs**, from their roots on. -/
structure IsIsomorphism (f : a.Reach ≃ b.Reach) : Prop where
  root : Item.Corresponds (Takes f) a.root b.root
  /-- A number with a node goes to one with a corresponding node, and one without to one without. -/
  nodes : ∀ i : a.Reach, Option.Rel (Node.Corresponds (Takes f)) (a.node? i) (b.node? (f i))

/-- Whether two graphs are isomorphic from their roots. -/
def Isomorphic (a b : Content) : Prop :=
  ∃ f : a.Reach ≃ b.Reach, IsIsomorphism f

/-- An isomorphism is a correspondence. -/
theorem IsIsomorphism.correspondence {f : a.Reach ≃ b.Reach} (h : IsIsomorphism f) :
    a.Correspondence b (Takes f) where
  root := h.root
  unique := by
    constructor
    · rintro i i' j ⟨hi, rfl⟩ ⟨hi', heq⟩
      exact congrArg Subtype.val (f.injective (Subtype.ext heq.symm))
    · rintro i j j' ⟨hi, rfl⟩ ⟨_, rfl⟩
      rfl
  nodes := by
    rintro i j ⟨hi, rfl⟩
    exact h.nodes ⟨i, hi⟩

section

variable {R : NodeId → NodeId → Prop}

/-- Along a correspondence, whatever one graph reaches has a partner that the other reaches. -/
theorem Correspondence.exists_partner (h : a.Correspondence b R) {i : NodeId}
    (hi : a.Reaches i) : ∃ j, R i j ∧ b.Reaches j := by
  induction hi with
  | root hroot =>
    obtain ⟨j, hj, hij⟩ := (hroot ▸ h.root).exists_link
    exact ⟨j, hij, .root hj⟩
  | step _ here link ih =>
    obtain ⟨k, hk, hreach⟩ := ih
    have hnodes := h.nodes hk
    rw [here] at hnodes
    generalize hm : b.node? k = m at hnodes
    cases hnodes with
    | some hcorr =>
      obtain ⟨j, hj, hij⟩ := hcorr.exists_link link
      exact ⟨j, hij, .step hreach hm hj⟩

/-- The partner of a number within reach. -/
noncomputable def Correspondence.partner (h : a.Correspondence b R) (i : a.Reach) : b.Reach :=
  ⟨_, (h.exists_partner i.2).choose_spec.2⟩

/-- A node is related to its partner. -/
theorem Correspondence.related_partner (h : a.Correspondence b R) (i : a.Reach) :
    R i (h.partner i) :=
  (h.exists_partner i.2).choose_spec.1

/-- **A correspondence is a one-to-one map of what is within reach.** -/
noncomputable def Correspondence.equiv (h : a.Correspondence b R) : a.Reach ≃ b.Reach where
  toFun := h.partner
  invFun := h.symm.partner
  left_inv i := Subtype.ext
    (h.unique.1 (h.symm.related_partner (h.partner i)) (h.related_partner i))
  right_inv j := Subtype.ext
    (h.unique.2 (h.related_partner (h.symm.partner j)) (h.symm.related_partner j))

/-- The bijection of a correspondence takes a node to those that it is related to. -/
theorem Correspondence.takes_equiv (h : a.Correspondence b R) {i j : NodeId}
    (hi : a.Reaches i) (hij : R i j) : Takes h.equiv i j :=
  ⟨hi, h.unique.2 (h.related_partner ⟨i, hi⟩) hij⟩

/-- **The bijection of a correspondence is an isomorphism.** -/
theorem Correspondence.isIsomorphism (h : a.Correspondence b R) : IsIsomorphism h.equiv where
  root := h.root.imp fun _ _ hi _ hij => h.takes_equiv (.root hi) hij
  nodes i := by
    have hnodes := h.nodes (h.related_partner i)
    rw [show (h.equiv i : NodeId) = h.partner i from rfl]
    generalize hn : a.node? i = n at hnodes ⊢
    generalize b.node? (h.partner i) = m at hnodes ⊢
    cases hnodes with
    | some hcorr =>
      exact .some (hcorr.imp fun k l hk _ hkl => h.takes_equiv (.step i.2 hn hk) hkl)
    | none => exact .none

end

/-- **Contents are isomorphic if they correspond.** -/
theorem isomorphic_iff_exists_correspondence :
    a.Isomorphic b ↔ ∃ R, a.Correspondence b R :=
  ⟨fun ⟨_, h⟩ => ⟨_, h.correspondence⟩, fun ⟨_, h⟩ => ⟨_, h.isIsomorphism⟩⟩

end Content

end DebugBridge

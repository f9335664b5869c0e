import DebugBridge.Proofs.Content.Cycles
import DebugBridge.Proofs.Json.Outline

/-!
# Proofs/Content/Paths — the tree of a graph, by its paths

A path of keys and indexes can be followed through a graph as through a tree, from slot to slot. A
slot shows an outline as well: a scalar, the length of the array or the keys of the object it links
to, and null where the link dangles.

The tree that a graph unfolds into shows along every path what the graph shows, so a shared
container is in it once for every path, and it is the only such tree (`unfolds_unless_cyclic`).
-/

namespace DebugBridge

namespace Node

/-- What is seen of a container without a look at what is inside. -/
def outline : Node → Outline
  | .array items => .array items.length
  | .object members => .object members.keys

/-- The slot one step inside a container. -/
def child? : Node → PathStep → Option Item
  | .array items, .item index => items[index]?
  | .object members, .member key => members.get? key
  | _, _ => none

variable {n : Node} {trees : List Json}

theorem length_items_object (members : KeyMap Item) :
    members.keys.length = (object members).items.length := by
  simp [items, KeyMap.keys, KeyMap.values]

theorem outline_tree (h : n.items.length = trees.length) : (n.tree trees).outline = n.outline := by
  cases n with
  | array items => exact congrArg Outline.array h.symm
  | object members =>
    have hlength : members.keys.length = trees.length := (length_items_object members).trans h
    exact congrArg Outline.object (List.map_fst_zip (Nat.le_of_eq hlength))

theorem ordered_tree (h : n.items.length = trees.length) (ordered : ∀ v ∈ trees, v.Ordered) :
    (n.tree trees).Ordered := by
  cases n with
  | array items => exact Json.orderedItems_iff.2 ordered
  | object members =>
    have hlength : members.keys.length = trees.length := (length_items_object members).trans h
    have hkeys : (members.keys.zip trees).map (·.1) = members.keys :=
      List.map_fst_zip (Nat.le_of_eq hlength)
    have hvalues : (members.keys.zip trees).map (·.2) = trees :=
      List.map_snd_zip (Nat.le_of_eq hlength.symm)
    have hsorted : ((members.keys.zip trees).map (·.1)).Pairwise (· < ·) := by
      rw [hkeys]
      exact List.pairwise_map.2 members.sorted
    refine ⟨List.pairwise_map.1 hsorted, Json.orderedMembers_iff.2 ?_⟩
    rw [hvalues]
    exact ordered

/-- What stands for the slot at a step stands at that step in the tree of the container. -/
theorem rel_child?_tree {S : Item → Json → Prop} (h : List.Forall₂ S n.items trees)
    (s : PathStep) : Option.Rel S (n.child? s) ((n.tree trees).child? s) := by
  cases n with
  | array items =>
    cases s with
    | item index => exact rel_getElem? h index
    | member key => exact .none
  | object members =>
    cases s with
    | item index => exact .none
    | member key =>
      have hlength : members.keys.length = trees.length :=
        (length_items_object members).trans h.length_eq
      refine KeyMap.rel_lookup (KeyMap.forall₂_entries_iff.2 ⟨?_, ?_⟩) key
      · exact (List.map_fst_zip (Nat.le_of_eq hlength)).symm
      · rw [List.map_snd_zip (Nat.le_of_eq hlength.symm)]
        exact h

end Node

namespace Content

variable {c : Content} {room : Nat} {above : List NodeId} {x : Item} {id : NodeId} {v : Json}

/-! ## Paths through a graph -/

/-- What is seen of a slot and the container it links to. -/
def outline (c : Content) : Item → Outline
  | .null => .null
  | .bool value => .bool value
  | .number value => .number value
  | .string text => .string text
  | .node id => (c.node? id).elim .null Node.outline

/-- The slot one step inside the container that a slot links to. -/
def child? (c : Content) (x : Item) : PathStep → Option Item
  | .item index => c.element? x index
  | .member key => c.member? x key

/-- **The slot that a path leads to** from a slot. -/
def follow? (c : Content) (x : Item) (path : Path) : Option Item :=
  path.foldlM c.child? x

@[simp] theorem follow?_nil (c : Content) (x : Item) : c.follow? x [] = some x := rfl

@[simp] theorem follow?_cons (c : Content) (x : Item) (s : PathStep) (path : Path) :
    c.follow? x (s :: path) = (c.child? x s).bind fun y => c.follow? y path := rfl

theorem child?_of_none (h : x.node? >>= c.node? = none) (s : PathStep) : c.child? x s = none := by
  cases s <;> simp [child?, element?, elements, member?, h]

theorem child?_of_some {n : Node} {id : NodeId} (h : c.node? id = some n) (s : PathStep) :
    c.child? (.node id) s = n.child? s := by
  have hnode : Item.node? (.node id) >>= c.node? = some n := h
  cases n <;> cases s <;> simp [child?, element?, elements, member?, hnode, Node.child?]

/-! ## The unfolding -/

theorem treeAt?_full {n : Node} (here : c.node? id = some n) (above : List NodeId) :
    c.treeAt? 0 above (.node id) = none := by
  unfold treeAt?
  simp [here]

/-- **What unfolds** has nothing inside, or it is a container and so do its slots, one link further
down the path. -/
theorem treeAt?_cases (h : c.treeAt? room above x = some v) :
    ((x.node? >>= c.node?) = none ∧ v = Wire.scalarValue x) ∨
      ∃ id n less trees, x = .node id ∧ c.node? id = some n ∧ room = less + 1 ∧
        List.Forall₂ (fun y w => c.treeAt? less (id :: above) y = some w) n.items trees ∧
        v = n.tree trees := by
  by_cases hx : x.IsScalar
  · rw [treeAt?_scalar hx] at h
    refine .inl ⟨?_, (Option.some.inj h).symm⟩
    cases x with
    | node id => exact absurd rfl (hx id)
    | null | bool _ | number _ | string _ => rfl
  obtain ⟨id, rfl⟩ : ∃ id, x = .node id := by simpa [Item.IsScalar] using hx
  by_cases hid : id ∈ above
  · rw [treeAt?_above hid] at h
    cases h
  cases hn : c.node? id with
  | none =>
    rw [treeAt?_missing hid hn] at h
    exact .inl ⟨hn, (Option.some.inj h).symm⟩
  | some n =>
    cases room with
    | zero =>
      rw [treeAt?_full hn] at h
      cases h
    | succ less =>
      rw [treeAt?_container hid hn, Option.map_eq_some_iff] at h
      obtain ⟨trees, htrees, rfl⟩ := h
      exact .inr ⟨id, n, less, trees, rfl, hn, rfl, mapM_eq_some_iff.1 htrees, rfl⟩

/-- An unfolding has the members of every object in the order of their keys. -/
theorem ordered_of_treeAt? (h : c.treeAt? room above x = some v) : v.Ordered := by
  induction room generalizing above x v with
  | zero =>
    obtain ⟨-, rfl⟩ | ⟨_, _, _, _, -, -, hroom, -⟩ := treeAt?_cases h
    · cases x <;> trivial
    · cases hroom
  | succ room ih =>
    obtain ⟨-, rfl⟩ | ⟨id, n, _, trees, rfl, -, hroom, htrees, rfl⟩ := treeAt?_cases h
    · cases x <;> trivial
    · obtain rfl := Nat.succ.inj hroom
      have hordered : List.Forall₂ (fun w _ => w.Ordered ∧ True) trees n.items :=
        (htrees.imp fun _ _ hy => ⟨ih hy, trivial⟩).flip
      exact Node.ordered_tree htrees.length_eq ((List.forall₂_and_left _ _).1 hordered).1

theorem outline_of_treeAt? (h : c.treeAt? room above x = some v) : v.outline = c.outline x := by
  obtain ⟨hnone, rfl⟩ | ⟨id, n, _, trees, rfl, hn, -, htrees, rfl⟩ := treeAt?_cases h
  · cases x with
    | node id =>
      have hmissing : c.node? id = none := hnone
      simp [outline, hmissing, Wire.scalarValue, Json.outline]
    | null | bool _ | number _ | string _ => rfl
  · rw [Node.outline_tree htrees.length_eq, outline, hn]
    rfl

/-- Inside an unfolding stand unfoldings of the slots inside. -/
theorem rel_child?_of_treeAt? (h : c.treeAt? room above x = some v) (s : PathStep) :
    Option.Rel (fun y w => ∃ less above', c.treeAt? less above' y = some w) (c.child? x s)
      (v.child? s) := by
  obtain ⟨hnone, rfl⟩ | ⟨id, n, less, trees, rfl, hn, -, htrees, rfl⟩ := treeAt?_cases h
  · rw [child?_of_none hnone]
    cases x <;> exact .none
  · rw [child?_of_some hn]
    exact Node.rel_child?_tree (htrees.imp fun _ _ hy => ⟨less, id :: above, hy⟩) s

/-- **An unfolding shows along every path what the graph shows.** -/
theorem follow?_of_treeAt? (h : c.treeAt? room above x = some v) (path : Path) :
    (v.follow? path).map Json.outline = (c.follow? x path).map c.outline := by
  induction path generalizing room above x v with
  | nil => simpa using outline_of_treeAt? h
  | cons s path ih =>
    have hchild := rel_child?_of_treeAt? h s
    rw [follow?_cons, Json.follow?_cons]
    generalize c.child? x s = y at hchild
    generalize v.child? s = w at hchild
    cases hchild with
    | none => rfl
    | some inside =>
      obtain ⟨less, above', hw⟩ := inside
      exact ih hw

/-- **Flattening gives the unfolding, and nothing exactly for cycles.** A graph leaves no tree if
and only if some container within reach can be reached from itself. Otherwise it leaves the one
tree, with the members of objects in the order of their keys, in which every path of keys and
indexes leads to what it leads to in the graph: to the same scalar, to an array of the same length,
to an object with the same keys, or to nothing. A shared container stands at the end of every path
that leads to it, and a link that dangles is null. -/
theorem unfolds_unless_cyclic (c : Content) :
    (c.toJson? = none ↔ c.Cyclic) ∧
      ∀ v, c.toJson? = some v ↔ ¬ c.Cyclic ∧ v.Ordered ∧
        ∀ path, (v.follow? path).map Json.outline = (c.follow? c.root path).map c.outline := by
  refine ⟨toJson?_eq_none_iff, fun v => ⟨fun h => ⟨fun hcyclic => ?_, ?_, ?_⟩, ?_⟩⟩
  · rw [toJson?_eq_none_iff.2 hcyclic] at h
    cases h
  · exact ordered_of_treeAt? h
  · exact follow?_of_treeAt? h
  · rintro ⟨hacyclic, hordered, hpaths⟩
    obtain ⟨w, hw⟩ : ∃ w, c.toJson? = some w :=
      Option.ne_none_iff_exists'.1 fun hnone => hacyclic (toJson?_eq_none_iff.1 hnone)
    have heq : v = w := Json.eq_of_outline hordered.distinctKeys
      (ordered_of_treeAt? hw).distinctKeys fun path =>
        (hpaths path).trans (follow?_of_treeAt? hw path).symm
    rw [heq, hw]

example :
    let c : Content := ⟨#[.array [.node 1, .node 1, .node 7], .array [.bool true]], .node 0⟩
    c.toJson? = some (.array [.array [.bool true], .array [.bool true], .null]) := by
  rfl

end Content

end DebugBridge

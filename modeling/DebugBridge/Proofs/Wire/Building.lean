import DebugBridge.Proofs.KeyMap
import DebugBridge.Proofs.Wire.Acceptance
import Mathlib.Data.List.Infix

/-!
# Proofs/Wire/Building — the graph that a tree is read as

The reader gives its numbers in document order: the containers inside a value are a block of the
list of all containers, and the nodes that they become are the same block of the list of nodes
(`Block`).

```
  containers of the tree    v  …  w  w₀ w₁ …        offset of w: containers before it
  nodes                     0  …  k  k+1 …          the same number for both
```

The number of a container and the number that a reference to its pointer finds are therefore one
number, wherever the reference stands (`Block.idxOf_pointer`), and **the graph is the tree with
every marker replaced by a link to its container** (`Json.Builds`).
-/

namespace DebugBridge

namespace Json

open Wire

/-! ## A tree as a graph -/

/-- What a slot with the value of a place holds, when the containers at the places of the tree are
the nodes `node`: the scalar, the node of the container, or the node of the container that a marker
names. -/
inductive Becomes (v : Json) (node : Path → NodeId) : Path → Json → Item → Prop
  | scalar {path : Path} {x : Item} (scalar : x.IsScalar) : Becomes v node path (scalarValue x) x
  | container {path : Path} {w : Json} (container : w.IsContainer) :
      Becomes v node path w (.node (node path))
  | reference {path place : Path} {w : Json} (there : v.At place w) (container : w.IsContainer) :
      Becomes v node path (marker (pointerFrom "" place)) (.node (node place))

/-- The node of the container at a place: slot by slot, or member by member under the keys that the
written ones stand for. -/
inductive BecomesNode (v : Json) (node : Path → NodeId) (path : Path) : Json → Node → Prop
  | array {values : List Json} {items : List Item} (length : items.length = values.length)
      (slots : ∀ (i : Nat) w x, values[i]? = some w → items[i]? = some x →
        Becomes v node (path ++ [.item i]) w x) :
      BecomesNode v node path (.array values) (.array items)
  | object {members : List (String × Json)} {map : KeyMap Item}
      (keys : map.keys.Perm (members.map fun m => unescapeKey m.1))
      (slots : ∀ m ∈ members, ∃ x, map.get? (unescapeKey m.1) = some x ∧
        Becomes v node (path ++ [.member m.1]) m.2 x) :
      BecomesNode v node path (.object members) (.object map)

/-- **A graph is the tree `v` with every marker replaced by a link**: `node` gives each container of
the tree a node of its own, and there are no other nodes. -/
structure Builds (v : Json) (c : Content) (node : Path → NodeId) : Prop where
  root : Becomes v node [] v c.root
  nodes : ∀ path w, v.At path w → w.IsContainer →
    ∃ n, c.node? (node path) = some n ∧ BecomesNode v node path w n
  distinct : ∀ path w rest x, v.At path w → w.IsContainer → v.At rest x → x.IsContainer →
    node path = node rest → path = rest
  all : ∀ id n, c.node? id = some n → ∃ path w, v.At path w ∧ w.IsContainer ∧ node path = id

/-- No object has two members whose keys stand for one key. -/
def Unambiguous (v : Json) : Prop :=
  ∀ path members, v.At path (.object members) → (members.map fun m => unescapeKey m.1).Nodup

theorem Unambiguous.distinctKeys {v : Json} (h : v.Unambiguous) : v.DistinctKeys := by
  intro path members hat
  have hkeys : ((members.map (·.1)).map unescapeKey).Nodup := by
    rw [List.map_map]
    exact h path members hat
  exact hkeys.of_map _

end Json

/-! ## Blocks -/

namespace Wire

variable {v w x : Json} {path rest : Path} {s : PathStep} {offset later : Nat}

/-- **What is inside a tree is a block of it**: with `offset` containers before it in document
order, and with as many nodes before it. -/
structure Block (v : Json) (path : Path) (w : Json) (offset : Nat) : Prop where
  pointers : ∀ start,
    pointers w (pointerFrom start path) <+: (Wire.pointers v start).drop offset
  nodes : ∀ resolve start,
    nodes resolve (start + offset) w <+: (Wire.nodes resolve start v).drop offset

theorem Block.here (v : Json) : Block v [] v 0 :=
  ⟨fun _ => List.prefix_rfl, fun _ _ => List.prefix_rfl⟩

theorem Block.append (b : Block v path w offset) (b' : Block w rest x later) :
    Block v (path ++ rest) x (offset + later) where
  pointers start := by
    rw [pointerFrom_append, ← List.drop_drop]
    exact (b'.pointers _).trans (List.IsPrefix.drop (b.pointers start) later)
  nodes resolve start := by
    rw [← Nat.add_assoc, ← List.drop_drop]
    exact (b'.nodes resolve _).trans (List.IsPrefix.drop (b.nodes resolve start) later)

theorem nodes_object {members : List (String × Json)} (plain : objectKind members = .plain)
    (resolve : String → NodeId) (start : NodeId) :
    nodes resolve start (.object members) = .object (memberMap resolve (start + 1) members) ::
      nodesOfItems resolve (start + 1) (members.map (·.2)) := by
  simp only [nodes, plain, nodesOfMembers_eq]

theorem values_memberMap_subset (resolve : String → NodeId) (start : NodeId)
    (members : List (String × Json)) :
    (memberMap resolve start members).values ⊆ slots resolve start (members.map (·.2)) := by
  intro x hx
  obtain ⟨⟨key, x⟩, he, rfl⟩ := List.mem_map.1 hx
  have hpair := (memberSlots_perm resolve start members).mem_iff.1 (KeyMap.mem_of_mem_ofList he)
  exact (List.of_mem_zip hpair).2

/-- The node of a container comes before those of the containers inside it, and what it holds are
the slots of what is inside it. -/
theorem exists_nodes_eq {pointer : String} {inside : List (String × Json)}
    (h : inside? pointer v = some inside) (resolve : String → NodeId) (start : NodeId) :
    ∃ n, n.items ⊆ slots resolve (start + 1) v.children ∧
      nodes resolve start v = n :: nodesOfItems resolve (start + 1) v.children := by
  cases v with
  | array values => exact ⟨_, List.Subset.refl _, rfl⟩
  | object members =>
    simp only [inside?] at h
    split at h
    · exact ⟨.object (memberMap resolve (start + 1) members),
        values_memberMap_subset resolve (start + 1) members, nodes_object ‹_› resolve start⟩
    all_goals cases h
  | null | bool _ | number _ | string _ => cases h

theorem length_nodesOfItems {values : List Json} {resolve : String → NodeId} {start : NodeId}
    (h : ∀ w ∈ values, ∀ start, (nodes resolve start w).length = containers w) :
    (nodesOfItems resolve start values).length = containersOfItems values := by
  induction values generalizing start with
  | nil => rfl
  | cons v rest ih =>
    rw [nodesOfItems, containersOfItems, List.length_append, h v List.mem_cons_self,
      ih fun w hw => h w (List.mem_cons_of_mem v hw)]

theorem containers_of_inside? {pointer : String} {inside : List (String × Json)}
    (h : inside? pointer v = some inside) : containers v = containersOfItems v.children + 1 := by
  rw [containers_eq v pointer, h, containersOfItems_eq, ← map_snd_of_inside? h]

theorem length_nodes (v : Json) (resolve : String → NodeId) (start : NodeId) :
    (nodes resolve start v).length = containers v := by
  induction v using Json.inductionOn generalizing start with
  | h v ih =>
    cases h : inside? "" v with
    | some inside =>
      obtain ⟨n, -, hn⟩ := exists_nodes_eq h resolve start
      rw [hn, List.length_cons, length_nodesOfItems ih, containers_of_inside? h]
    | none =>
      rcases Json.of_inside?_eq_none h with ⟨x, -, rfl⟩ | ⟨target, rfl⟩ | ⟨_, rfl, hmalformed⟩
      · cases x <;> rfl
      · simp [marker, nodes, containers, objectKind_marker]
      · simp [nodes, containers, hmalformed]

/-- A value directly inside a container is a block, after the container and what is before it. -/
theorem block_of_entry {pointer : String} {inside : List (String × Json)}
    (h : inside? pointer v = some inside) {i : Nat} (entry : v.entries[i]? = some (s, w)) :
    Block v [s] w (1 + containersOfItems (v.children.take i)) := by
  obtain ⟨hi, hget⟩ := List.getElem?_eq_some_iff.1 entry
  have hsplit : v.entries = v.entries.take i ++ (s, w) :: v.entries.drop (i + 1) := by
    rw [← hget, ← List.drop_eq_getElem_cons hi, List.take_append_drop]
  have hbefore : v.children.take i = (v.entries.take i).map (·.2) := by
    rw [← Json.map_snd_entries, List.map_take]
  constructor
  · intro start
    have hlength : ((v.entries.take i).flatMap fun e =>
        Wire.pointers e.2 (stepFrom start e.1)).length = containersOfItems (v.children.take i) := by
      rw [hbefore, containersOfItems_eq, List.map_map, List.length_flatMap]
      exact congrArg List.sum (List.map_congr_left fun e _ => length_pointers e.2 _)
    have hpointers : Wire.pointers v start = start :: v.entries.flatMap fun e =>
        Wire.pointers e.2 (stepFrom start e.1) := by
      rw [pointers_eq, Json.inside?_eq_some h start]
      simp [List.flatMap_map]
    rw [hpointers, hsplit, List.flatMap_append, List.flatMap_cons, Nat.add_comm,
      List.drop_succ_cons, List.drop_left' hlength]
    exact List.prefix_append _ _
  · intro resolve start
    have hlength : (nodesOfItems resolve (start + 1) (v.children.take i)).length =
        containersOfItems (v.children.take i) :=
      length_nodesOfItems fun w _ start => length_nodes w resolve start
    have hchildren : v.children =
        v.children.take i ++ ([w] ++ (v.entries.drop (i + 1)).map (·.2)) := by
      rw [hbefore]
      conv_lhs => rw [← Json.map_snd_entries, hsplit]
      simp
    obtain ⟨n, -, hn⟩ := exists_nodes_eq h resolve start
    rw [hn, hchildren, nodesOfItems_append, Nat.add_comm 1, List.drop_succ_cons, ← hchildren,
      List.drop_left' hlength, nodesOfItems_append, nodesOfItems, nodesOfItems, List.append_nil,
      Nat.add_assoc, Nat.add_comm 1]
    exact List.prefix_append _ _

/-- **Whatever stands in a tree is a block of it.** -/
theorem exists_block (hv : v.Formed) (h : v.At path w) : ∃ offset, Block v path w offset := by
  induction h with
  | here v => exact ⟨0, .here v⟩
  | @inside v w x s path entry later ih =>
    cases hinside : inside? "" v with
    | some inside =>
      obtain ⟨i, hi⟩ := List.mem_iff_getElem?.1 entry
      obtain ⟨offset, b⟩ := ih (hv.entry entry)
      exact ⟨_, (block_of_entry hinside hi).append b⟩
    | none =>
      -- the text of a marker has no containers, so it is a block anywhere
      obtain ⟨target, rfl⟩ := hv.eq_string_of_entry hinside entry
      obtain ⟨rfl, rfl⟩ := later.eq_of_entries_eq_nil rfl
      exact ⟨0, fun _ => List.nil_prefix, fun _ _ => List.nil_prefix⟩

/-! ## Numbers -/

/-- The number that a reference to a place finds. -/
def numberAt (v : Json) (path : Path) : NodeId :=
  (pointers v "").idxOf (pointerFrom "" path)

theorem Block.number_eq {inside : List (String × Json)} {pointer : String}
    (b : Block v path w offset) (hv : v.DistinctKeys) (h : inside? pointer w = some inside) :
    numberAt v path = offset := by
  refine idxOf_pointers hv ?_
  obtain ⟨rest, hrest⟩ := b.pointers ""
  rw [pointers_eq, Json.inside?_eq_some h] at hrest
  rw [← List.head?_drop, ← hrest]
  rfl

theorem Block.getElem?_nodes (b : Block v path w offset) {resolve : String → NodeId} {n : Node}
    {later : List Node} (h : Wire.nodes resolve offset w = n :: later) :
    (Wire.nodes resolve 0 v)[offset]? = some n := by
  obtain ⟨rest, hrest⟩ := b.nodes resolve 0
  rw [Nat.zero_add, h] at hrest
  rw [← List.head?_drop, ← hrest]
  rfl

theorem getElem?_slots (resolve : String → NodeId) (start : NodeId) (values : List Json) (i : Nat) :
    (slots resolve start values)[i]? =
      values[i]?.map (slot resolve (start + containersOfItems (values.take i))) := by
  induction values generalizing start i with
  | nil => rfl
  | cons v rest ih =>
    cases i with
    | zero => rfl
    | succ i => simp [slots, containersOfItems, ih, Nat.add_assoc]

/-- Something that a walk goes into is a container, and links are made to its own number. -/
theorem slot_of_inside? {pointer : String} {inside : List (String × Json)}
    (h : inside? pointer v = some inside) (resolve : String → NodeId) (start : NodeId) :
    slot resolve start v = .node start := by
  cases v with
  | array values => rfl
  | object members =>
    simp only [inside?] at h
    split at h
    · simp only [slot, ‹objectKind members = _›]
    all_goals cases h
  | null | bool _ | number _ | string _ => cases h

theorem slot_scalarValue {x : Item} (h : x.IsScalar) (resolve : String → NodeId) (start : NodeId) :
    slot resolve start (scalarValue x) = x := by
  cases x with
  | node id => exact absurd rfl (h id)
  | null | bool _ | number _ | string _ => rfl

theorem slot_marker (resolve : String → NodeId) (start : NodeId) (target : String) :
    slot resolve start (marker target) = .node (resolve target) := by
  simp [slot, marker, objectKind_marker]

end Wire

namespace Json

open Wire

variable {v w : Json} {path : Path} {offset : Nat}

/-- **A slot holds what stands at its place**, with a reference as a link to its container. -/
theorem WellReferenced.becomes (hv : v.WellReferenced) (keys : v.DistinctKeys) (hat : v.At path w)
    (b : Block v path w offset) :
    v.Becomes (numberAt v) path w (slot (pointers v "").idxOf offset w) := by
  cases h : inside? "" w with
  | some inside =>
    rw [slot_of_inside? h, ← b.number_eq keys h]
    exact .container (isContainer_of_inside? h)
  | none =>
    obtain ⟨x, hx, rfl⟩ | ⟨target, rfl⟩ := hv.formed.of_inside?_eq_none hat h
    · rw [slot_scalarValue hx]
      exact .scalar hx
    · obtain ⟨place, x, there, container, rfl⟩ := hv.located path target hat
      rw [slot_marker]
      exact .reference there container

/-- The slots of a container, one after the other. -/
theorem WellReferenced.becomes_child (hv : v.WellReferenced) (keys : v.DistinctKeys)
    (hat : v.At path w) (b : Block v path w offset) {inside : List (String × Json)}
    (h : inside? "" w = some inside) {i : Nat} {s : PathStep} {x : Json}
    (entry : w.entries[i]? = some (s, x)) :
    ∃ y, (slots (pointers v "").idxOf (offset + 1) w.children)[i]? = some y ∧
      v.Becomes (numberAt v) (path ++ [s]) x y := by
  have hchild : w.children[i]? = some x := by
    rw [← map_snd_entries, List.getElem?_map, entry]
    rfl
  refine ⟨_, by rw [getElem?_slots, hchild]; rfl, ?_⟩
  rw [Nat.add_assoc]
  exact hv.becomes keys (hat.snoc (List.mem_of_getElem? entry)) (b.append (block_of_entry h entry))

/-- The node of an array. -/
theorem WellReferenced.becomesNode_array (hv : v.WellReferenced) (keys : v.DistinctKeys)
    {values : List Json} (hat : v.At path (.array values))
    (b : Block v path (.array values) offset) :
    v.BecomesNode (numberAt v) path (.array values)
      (.array (slots (pointers v "").idxOf (offset + 1) values)) := by
  refine .array (length_slots _ _ _) fun i w x hw hx => ?_
  have entry : (array values).entries[i]? = some (.item i, w) := by simp [entries, hw]
  obtain ⟨y, hy, hbecomes⟩ := hv.becomes_child keys hat b rfl entry
  obtain rfl := Option.some.inj (hx.symm.trans hy)
  exact hbecomes

/-- The node of an object, whose keys stand for keys that are all different. -/
theorem WellReferenced.becomesNode_object (hv : v.WellReferenced) (keys : v.DistinctKeys)
    {members : List (String × Json)} (hat : v.At path (.object members))
    (b : Block v path (.object members) offset) (plain : objectKind members = .plain)
    (nodup : (members.map fun m => unescapeKey m.1).Nodup) :
    v.BecomesNode (numberAt v) path (.object members)
      (.object (memberMap (pointers v "").idxOf (offset + 1) members)) := by
  have hperm := memberSlots_perm (pointers v "").idxOf (offset + 1) members
  have hfst : (((members.map (·.1)).map unescapeKey).zip
      (slots (pointers v "").idxOf (offset + 1) (members.map (·.2)))).map (·.1) =
        members.map fun m => unescapeKey m.1 := by
    rw [List.map_fst_zip (by simp [length_slots]), List.map_map]
    rfl
  have hkeys := (hperm.map Prod.fst).trans (.of_eq hfst)
  have hnodup := hkeys.nodup_iff.2 nodup
  have hentries := (KeyMap.entries_ofList_perm hnodup).map Prod.fst
  refine .object (hentries.trans hkeys) fun m hm => ?_
  obtain ⟨i, hi⟩ := List.mem_iff_getElem?.1 hm
  have entry : (object members).entries[i]? = some (.member m.1, m.2) := by simp [entries, hi]
  obtain ⟨y, hy, hbecomes⟩ :=
    hv.becomes_child keys hat b (by simp only [inside?, plain]; rfl) entry
  refine ⟨y, (KeyMap.get?_ofList_eq_some_iff hnodup).2 (hperm.mem_iff.2 ?_), hbecomes⟩
  refine List.mem_iff_getElem?.2 ⟨i, List.getElem?_zip_eq_some.2 ⟨?_, hy⟩⟩
  simp [hi]

/-- An object that is a container has not the key of a reference. -/
theorem Formed.objectKind_eq_plain (hv : v.Formed) {members : List (String × Json)}
    (hat : v.At path (.object members)) (container : (object members).IsContainer) :
    objectKind members = .plain := by
  cases h : objectKind members with
  | plain => rfl
  | reference target =>
    rw [objectKind_eq_reference_iff.1 h] at container
    exact absurd container (not_isContainer_marker target)
  | malformed => exact absurd h (hv.not_malformed hat)

/-- The node with the number of an array has the slots of its items. -/
theorem getElem?_nodes_array {values : List Json} (b : Block v path (.array values) offset)
    (keys : v.DistinctKeys) : (Wire.nodes (pointers v "").idxOf 0 v)[numberAt v path]? =
      some (.array (slots (pointers v "").idxOf (offset + 1) values)) := by
  have hinside : inside? "" (.array values) = some (itemPlaces "" 0 values) := rfl
  rw [b.number_eq keys hinside]
  exact b.getElem?_nodes rfl

/-- The node with the number of an object is the map of its members. -/
theorem getElem?_nodes_object {members : List (String × Json)}
    (b : Block v path (.object members) offset) (keys : v.DistinctKeys)
    (plain : objectKind members = .plain) :
    (Wire.nodes (pointers v "").idxOf 0 v)[numberAt v path]? =
      some (.object (memberMap (pointers v "").idxOf (offset + 1) members)) := by
  have hinside : inside? "" (.object members) = some (memberPlaces "" members) := by
    simp only [inside?, plain]
  rw [b.number_eq keys hinside]
  exact b.getElem?_nodes (nodes_object plain (pointers v "").idxOf offset)

/-- **The node of a container** is the one that references to it find. -/
theorem WellReferenced.exists_node (hv : v.WellReferenced) (keys : v.Unambiguous)
    (hat : v.At path w) (container : w.IsContainer) :
    ∃ n, (Wire.nodes (pointers v "").idxOf 0 v)[numberAt v path]? = some n ∧
      v.BecomesNode (numberAt v) path w n := by
  obtain ⟨offset, b⟩ := exists_block hv.formed hat
  cases w with
  | array values =>
    exact ⟨_, getElem?_nodes_array b keys.distinctKeys,
      hv.becomesNode_array keys.distinctKeys hat b⟩
  | object members =>
    have plain := hv.formed.objectKind_eq_plain hat container
    exact ⟨_, getElem?_nodes_object b keys.distinctKeys plain,
      hv.becomesNode_object keys.distinctKeys hat b plain (keys path members hat)⟩
  | null | bool _ | number _ | string _ => rcases container with ⟨_, h⟩ | ⟨_, h, -⟩ <;> cases h

/-- Different containers have different numbers. -/
theorem WellReferenced.eq_of_numberAt_eq (hv : v.WellReferenced) (keys : v.DistinctKeys)
    {rest : Path} {x : Json} (hw : v.At path w) (container : w.IsContainer) (hx : v.At rest x)
    (h : numberAt v path = numberAt v rest) : path = rest := by
  have hmem : pointerFrom "" path ∈ pointers v "" :=
    (mem_pointers_iff hv.formed).2 ⟨path, w, hw, container, rfl⟩
  exact eq_of_pointerFrom_eq keys hw hx ((List.idxOf_inj hmem).1 h)

/-- Every node is that of a container in the tree. -/
theorem WellReferenced.exists_at (hv : v.WellReferenced) (keys : v.DistinctKeys) {id : NodeId}
    {n : Node} (h : (Wire.nodes (pointers v "").idxOf 0 v)[id]? = some n) :
    ∃ path w, v.At path w ∧ w.IsContainer ∧ numberAt v path = id := by
  have hlt : id < (pointers v "").length := by
    rw [length_pointers, ← length_nodes v (pointers v "").idxOf 0]
    exact (List.getElem?_eq_some_iff.1 h).1
  have hget := List.getElem?_eq_getElem hlt
  obtain ⟨path, w, hat, container, hpointer⟩ :=
    (mem_pointers_iff hv.formed).1 (List.mem_of_getElem? hget)
  refine ⟨path, w, hat, container, ?_⟩
  rw [numberAt, hpointer, idxOf_pointers keys hget]

/-! ## Trees without ambiguous keys -/

theorem Unambiguous.of_children_eq_nil {v : Json} (h : v.children = []) : v.Unambiguous := by
  refine forall_objects (fun members heq => ?_) (by simp [h])
  obtain rfl : members = [] := by simpa [heq, Json.children] using h
  exact List.nodup_nil

theorem Unambiguous.array {values : List Json} (h : ∀ w ∈ values, w.Unambiguous) :
    (array values).Unambiguous :=
  forall_objects nofun h

theorem Unambiguous.object {members : List (String × Json)}
    (keys : (members.map fun m => unescapeKey m.1).Nodup)
    (h : ∀ w ∈ members.map (·.2), w.Unambiguous) : (object members).Unambiguous :=
  forall_objects (fun _ heq => object.inj heq ▸ keys) h

theorem Unambiguous.marker (target : String) : (marker target).Unambiguous :=
  Unambiguous.object (List.nodup_singleton _) fun w hw => by
    obtain rfl : w = .string target := List.mem_singleton.1 hw
    exact Unambiguous.of_children_eq_nil rfl

end Json

namespace Content

open Wire

/-- **What is read is the tree with every marker replaced by a link.** -/
theorem builds_of_decode {v : Json} {c : Content} (h : decode v = .ok c) (keys : v.Unambiguous) :
    v.Builds c (numberAt v) := by
  have hv : v.WellReferenced := exists_decode_iff.1 ⟨c, h⟩
  obtain rfl := eq_of_decode_eq_ok h
  constructor
  case root => exact hv.becomes keys.distinctKeys (.here v) (.here v)
  case nodes =>
    intro path w hat container
    obtain ⟨n, hn, hbecomes⟩ := hv.exists_node keys hat container
    exact ⟨n, by rw [node?, List.getElem?_toArray, hn], hbecomes⟩
  case distinct =>
    intro path w rest x hat container hat' _
    exact hv.eq_of_numberAt_eq keys.distinctKeys hat container hat'
  case all =>
    intro id n hn
    rw [node?, List.getElem?_toArray] at hn
    exact hv.exists_at keys.distinctKeys hn

/-- **Which trees are read, what is said of the others, and as what graph they are read.** A tree is
read when it is well-referenced. If an object has the key of a reference and is no marker, one such
object is named; otherwise a target that is the pointer of no container. What is read is the tree
with every marker replaced by a link to the container that it names, before, after or around it,
provided that no two members of an object stand for one key. -/
theorem decode_wellReferenced (v : Json) :
    ((∃ c, decode v = .ok c) ↔ v.WellReferenced) ∧
    (¬v.Formed → ∃ path members, v.At path (.object members) ∧ refKey ∈ members.map (·.1) ∧
      (∀ target, members ≠ [(refKey, .string target)]) ∧
      decode v = .error (.malformedReference (pointerFrom "" path))) ∧
    (v.Formed → ¬v.WellReferenced → ∃ path target, v.At path (marker target) ∧
      ¬v.Locates target ∧ decode v = .error (.unresolvedReference target)) ∧
    ∀ c, decode v = .ok c → v.Unambiguous → ∃ node, v.Builds c node := by
  refine ⟨exists_decode_iff, ?malformed, ?unresolved, fun c h keys => ⟨_, builds_of_decode h keys⟩⟩
  case malformed =>
    intro hv
    rcases decode_cases v with ⟨-, path, members, hat, hmalformed, h⟩ | ⟨hv', -⟩ | ⟨hv', -⟩
    · refine ⟨path, members, hat, ?_, fun target heq => ?_, h⟩
      · by_contra hkey
        rw [objectKind_eq_plain_iff.2 hkey] at hmalformed
        cases hmalformed
      · rw [objectKind_eq_reference_iff.2 heq] at hmalformed
        cases hmalformed
    · exact absurd hv' hv
    · exact absurd hv'.formed hv
  case unresolved =>
    intro hv hreferences
    rcases decode_cases v with ⟨hv', -⟩ | ⟨-, -, h⟩ | ⟨hv', -⟩
    · exact absurd hv hv'
    · exact h
    · exact absurd hv' hreferences

/-- A tree with references to containers before, after and around them, under keys that have to be
escaped. -/
def letter : Json :=
  .object [("a", marker "/z/0"), ("m~/", .array [.bool true, marker "", marker "/m~0~1"]),
    ("z", .array [.object [("$$ref", marker "/m~0~1")], .null])]

/-- The graph that `letter` is read as. -/
def letterGraph : Content :=
  ⟨#[.object (.ofList [("a", .node 3), ("m~/", .node 1), ("z", .node 2)]),
    .array [.bool true, .node 0, .node 1], .array [.node 3, .null],
    .object (.ofList [("$ref", .node 1)])], .node 0⟩

theorem decode_wellReferenced_letter : decode letter = .ok letterGraph ∧ letter.Unambiguous ∧
    ∃ node, letter.Builds letterGraph node := by
  have h : decode letter = .ok letterGraph := rfl
  have keys : letter.Unambiguous := by
    have htrue : (Json.bool true).Unambiguous := .of_children_eq_nil rfl
    have hnull : Json.null.Unambiguous := .of_children_eq_nil rfl
    have hobject : (Json.object [("$$ref", marker "/m~0~1")]).Unambiguous :=
      .object (List.nodup_singleton _) (by simp [Json.Unambiguous.marker])
    refine .object (by decide +kernel) ?_
    simp [Json.Unambiguous.array, Json.Unambiguous.marker, htrue, hnull, hobject]
  exact ⟨h, keys, (decode_wellReferenced letter).2.2.2 _ h keys⟩

end Content

end DebugBridge

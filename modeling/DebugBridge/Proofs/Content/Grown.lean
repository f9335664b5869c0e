import DebugBridge.Proofs.Content.Paths
import DebugBridge.Proofs.Content.Setting
import DebugBridge.Proofs.KeyMap

/-!
# Proofs/Content/Grown — the graph of a tree is a tree

A tree that is added to a graph gets its nodes from the inside out: the containers inside a value
are numbered before it, and those of an item before those of the next one.

```
  [[1], {"k": []}]        0: [1]    1: []    2: {"k": 1}    3: [0, 2]
```

So the slots of one list have stretches of nodes to themselves, one behind the other, and no node
has two slots that link to it. `Content.Grows` says this for a list of slots and the trees that they
stand for, and `grows_addTree` that adding a tree makes it so. What is said of a graph of this kind
is then shown by induction along `Grows`: here, that **the slots unfold into the trees again**
(`Grows.mapM_treeAt?`).
-/

namespace DebugBridge

namespace Content

variable {c : Content} {first id mid next : Nat} {items : List Item} {values : List Json}
  {nodes : Array Node} {above : List NodeId} {room : Nat}

/-! ## Slots with nodes of their own -/

/-- **Slots stand for trees**, and the nodes from `first` up to `next` are those of their
containers, each behind those inside it. -/
inductive Grows (c : Content) : (first : Nat) → List Item → List Json → (next : Nat) → Prop
  | nil {first : Nat} : Grows c first [] [] first
  | scalar {first next : Nat} {x : Item} {items : List Item} {values : List Json} :
    x.IsScalar → Grows c first items values next →
    Grows c first (x :: items) (Wire.scalarValue x :: values) next
  | container {first id next : Nat} {n : Node} {items : List Item} {inside values : List Json} :
    c.node? id = some n → Grows c first n.items inside id → Grows c (id + 1) items values next →
    Grows c first (.node id :: items) (n.tree inside :: values) next

theorem Grows.le (h : Grows c first items values next) : first ≤ next := by
  induction h with
  | nil => exact Nat.le_refl _
  | scalar _ _ ih => exact ih
  | container _ _ _ ihinside ih => omega

/-- Slots in front of others. -/
theorem Grows.cons {x : Item} {v : Json} (h : Grows c first [x] [v] mid)
    (later : Grows c mid items values next) : Grows c first (x :: items) (v :: values) next := by
  cases h with
  | scalar hx h =>
    cases h
    exact .scalar hx later
  | container here inside h =>
    cases h
    exact .container here inside later

/-! ## Adding a tree -/

/-- A graph has the nodes of an array, under the same numbers. -/
def Includes (c : Content) (nodes : Array Node) : Prop :=
  ∀ id n, nodes[id]? = some n → c.node? id = some n

theorem Includes.of_append {more : Array Node} (h : c.Includes (nodes ++ more)) :
    c.Includes nodes := by
  intro id n hn
  obtain ⟨hlt, -⟩ := Array.getElem?_eq_some_iff.1 hn
  exact h id n (by rw [Array.getElem?_append_left hlt, hn])

theorem Includes.of_addItems {before : List Item}
    (h : c.Includes (addItems values before nodes).1) : c.Includes nodes := by
  rw [addItems_append] at h
  obtain ⟨more, hmore, -⟩ := appends_addItems values nodes
  exact (hmore ▸ h).of_append

/-! ### One container -/

theorem length_addItems (values : List Json) (nodes : Array Node) :
    (addItems values [] nodes).2.length = values.length := by
  induction values generalizing nodes with
  | nil => rfl
  | cons v rest ih => rw [addItems_cons, List.length_cons, ih, List.length_cons]

/-- **A container is added behind what is inside it**, and its slots are those of that. -/
theorem exists_addTree_eq {v : Json} (ordered : v.Ordered) (container : v.nesting ≠ 0)
    (nodes : Array Node) : ∃ n : Node, n.items = (addItems v.children [] nodes).2 ∧
      n.tree v.children = v ∧ addTree v nodes = ((addItems v.children [] nodes).1.push n,
        .node (addItems v.children [] nodes).1.size) := by
  cases v with
  | array values => exact ⟨.array (addItems values [] nodes).2, rfl, rfl, rfl⟩
  | object members =>
    have hlength : (members.map (·.1)).length = (addItems (members.map (·.2)) [] nodes).2.length := by
      simp [length_addItems]
    have hkeys := List.map_fst_zip (Nat.le_of_eq hlength)
    have hvalues := List.map_snd_zip (Nat.le_of_eq hlength.symm)
    have hsorted : ((members.map (·.1)).zip (addItems (members.map (·.2)) [] nodes).2).Pairwise
        fun a b => a.1 < b.1 := by
      refine List.pairwise_map.1 (?_ : (List.map Prod.fst _).Pairwise (· < ·))
      rw [hkeys]
      exact List.pairwise_map.2 ordered.1
    refine ⟨.object ⟨_, hsorted⟩, hvalues, ?_, ?_⟩
    · simp only [Node.tree, KeyMap.keys, Json.children]
      rw [hkeys, List.zip_map']
      simp
    · have hmap : ((members.map (·.1)).zip (addItems (members.map (·.2)) [] nodes).2).foldl
          (fun m e => m.insert e.1 e.2) .empty = (⟨_, hsorted⟩ : KeyMap Item) := KeyMap.ofList_eq (.refl _)
      rw [addTree, addMembers_eq, hmap]
      rfl
  | null | bool _ | number _ | string _ => exact absurd rfl container

/-! ### A whole tree -/

/-- Adding a tree comes to one more stretch of nodes, with the slot of the tree at its end. -/
def AddsStretch (v : Json) : Prop :=
  ∀ (nodes : Array Node) (c : Content), c.Includes (addTree v nodes).1 →
    Grows c nodes.size [(addTree v nodes).2] [v] (addTree v nodes).1.size

theorem grows_addItems (h : ∀ v ∈ values, AddsStretch v)
    (hc : c.Includes (addItems values [] nodes).1) :
    Grows c nodes.size (addItems values [] nodes).2 values (addItems values [] nodes).1.size := by
  induction values generalizing nodes with
  | nil => exact .nil
  | cons v rest ih =>
    obtain ⟨hv, hrest⟩ := List.forall_mem_cons.1 h
    rw [addItems_cons] at hc ⊢
    exact (hv nodes c hc.of_addItems).cons (ih hrest hc)

/-- **Adding a tree makes it grow** behind the nodes that are there. -/
theorem grows_addTree {v : Json} (ordered : v.Ordered) : AddsStretch v := by
  induction v using Json.inductionOn with
  | h v ih =>
    intro nodes c hc
    by_cases container : v.nesting = 0
    · cases v with
      | array _ | object _ => cases container
      | null | bool _ | number _ | string _ => exact .scalar nofun .nil
    obtain ⟨n, hitems, htree, hadd⟩ := exists_addTree_eq ordered container nodes
    rw [hadd] at hc ⊢
    have hchildren : c.Includes (addItems v.children [] nodes).1 := by
      rw [← Array.append_singleton] at hc
      exact hc.of_append
    have hinside : Grows c nodes.size n.items v.children (addItems v.children [] nodes).1.size :=
      hitems ▸ grows_addItems (fun w hw => ih w hw (ordered.children w hw)) hchildren
    have hgrown := Grows.container (hc _ _ Array.getElem?_push_size) hinside .nil
    rwa [htree, ← Array.size_push n] at hgrown

/-- **The graph of a tree is the tree and nothing else.** -/
theorem grows_ofJson {v : Json} (ordered : v.Ordered) :
    Grows (ofJson v) 0 [(ofJson v).root] [v] (ofJson v).nodes.size :=
  grows_addTree ordered #[] (ofJson v) fun _ _ h => h

/-! ## What has grown unfolds -/

/-- **Slots that stand for trees unfold into them**, below nodes further on, with room for as many
rounds as there are nodes. -/
theorem Grows.mapM_treeAt? (h : Grows c first items values next) (hroom : next ≤ first + room)
    (habove : ∀ id ∈ above, next ≤ id) : items.mapM (c.treeAt? room above) = some values := by
  induction h generalizing room above with
  | nil => rfl
  | scalar hx _ ih =>
    rw [List.mapM_cons, treeAt?_scalar hx, ih hroom habove]
    rfl
  | @container first id next n items inside values here hinside hlater ihinside ih =>
    have hfirst := hinside.le
    have hnext := hlater.le
    obtain ⟨room, rfl⟩ := Nat.exists_eq_succ_of_ne_zero (show room ≠ 0 by omega)
    have hid : id ∉ above := fun hid => by
      have := habove id hid
      omega
    have hwithin : n.items.mapM (c.treeAt? room (id :: above)) = some inside := by
      refine ihinside (by omega) fun j hj => ?_
      obtain rfl | hj := List.mem_cons.1 hj
      · exact Nat.le_refl _
      · have := habove j hj
        omega
    have htail : items.mapM (c.treeAt? (room + 1) above) = some values := ih (by omega) habove
    rw [List.mapM_cons, treeAt?_container hid here, hwithin, htail]
    rfl

theorem Grows.toJson?_eq {v : Json} (h : Grows c 0 [c.root] [v] c.nodes.size) :
    c.toJson? = some v := by
  have hunfold : [c.root].mapM (c.treeAt? c.nodes.size []) = some [v] :=
    h.mapM_treeAt? (Nat.le_add_left _ _) nofun
  rw [mapM_eq_some_iff, List.forall₂_cons] at hunfold
  exact hunfold.1

/-! ## No link dangles -/

/-- A link among the slots is to the container of a tree. -/
theorem Grows.exists_of_mem (h : Grows c first items values next) (hid : .node id ∈ items) :
    ∃ before n inside, c.node? id = some n ∧ Grows c before n.items inside id := by
  induction h with
  | nil => cases hid
  | scalar hx _ ih =>
    obtain rfl | hid := List.mem_cons.1 hid
    · exact absurd rfl (hx id)
    · exact ih hid
  | container here inside _ _ ih =>
    obtain heq | hid := List.mem_cons.1 hid
    · obtain rfl := Item.node.inj heq
      exact ⟨_, _, _, here, inside⟩
    · exact ih hid

theorem Grows.closed (h : Grows c first [c.root] values next) : c.Closed := by
  suffices hinside : ∀ id, c.Reaches id →
      ∃ before n inside, c.node? id = some n ∧ Grows c before n.items inside id by
    intro id hid
    obtain ⟨-, n, -, here, -⟩ := hinside id hid
    rw [here]
    rfl
  intro id hid
  induction hid with
  | root hroot => exact h.exists_of_mem (hroot ▸ List.mem_singleton_self _)
  | step _ here link ih =>
    obtain ⟨before, n, inside, here', hgrows⟩ := ih
    obtain rfl := Option.some.inj (here.symm.trans here')
    exact hgrows.exists_of_mem link

end Content

end DebugBridge

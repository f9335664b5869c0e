import DebugBridge.Content.Tree
import DebugBridge.Proofs.Json.Children
import DebugBridge.Proofs.KeyMap

/-!
# Proofs/Content/Setting — what setting a member leaves as it is

A tree that is added to a graph gets nodes of its own behind those that are there, with links among
themselves only (`appends_addTree`). Setting a member of the root then changes the root and no other
node, and of the root no other member (`field?_set_of_ne`), as long as the root is an object, which
it is from the first member on (`isRooted_setItem`).
-/

namespace DebugBridge

namespace Content

variable {c : Content} {key k : String}

/-! ## Members that are there -/

theorem field?_onNewRoot (c : Content) (key : String) (item : Item) :
    (setItem.onNewRoot key item c).field? key = some item := by
  simp [setItem.onNewRoot, field?, member?, setRoot, alloc, node?, Item.node?]

/-- The member that was set is there. -/
theorem field?_setItem (c : Content) (key : String) (item : Item) :
    (c.setItem key item).field? key = some item := by
  rw [setItem]
  split
  · next id hroot =>
    rw [insert?]
    split
    · next members hnode =>
      obtain ⟨hlt, -⟩ := Array.getElem?_eq_some_iff.1 hnode
      simp [field?, member?, hroot, node?, Item.node?, hlt]
    · exact field?_onNewRoot c key item
  · exact field?_onNewRoot c key item

/-- A member that is set to a text is that text. -/
theorem field?_set_string (c : Content) (key text : String) :
    (c.set key (.string text)).field? key = some (.string text) := by
  rw [set, add, addTree]
  exact field?_setItem c key _

/-- Setting a member leaves the arrays as they are. -/
theorem node?_setItem {c : Content} {id : NodeId} {items : List Item}
    (h : c.node? id = some (.array items)) (key : String) (item : Item) :
    (c.setItem key item).node? id = some (.array items) := by
  obtain ⟨hlt, hget⟩ := Array.getElem?_eq_some_iff.1 h
  have hnew : (setItem.onNewRoot key item c).node? id = some (.array items) := by
    simp [setItem.onNewRoot, setRoot, alloc, node?, Array.getElem?_push_lt hlt, hget]
  rw [setItem]
  split
  · next root hroot =>
    rw [insert?]
    split
    · next members hnode =>
      have hne : root ≠ id := by
        rintro rfl
        rw [show c.nodes[root]? = _ from h] at hnode
        cases hnode
      simp [node?, Array.getElem?_setIfInBounds_ne hne, show c.nodes[id]? = _ from h]
    · exact hnew
  · exact hnew

/-- A member that is set to an empty array is one. -/
theorem set_emptyArray (c : Content) (key : String) :
    ∃ id, (c.set key (.array [])).field? key = some (.node id) ∧
      (c.set key (.array [])).node? id = some (.array []) := by
  have hset : c.set key (.array []) = setItem (c.allocArray.1) key (.node c.nodes.size) := by
    rw [set, add, addTree, addItems]
    rfl
  have hnew : c.allocArray.1.node? c.nodes.size = some (.array []) := Array.getElem?_push_size
  rw [hset]
  exact ⟨c.nodes.size, field?_setItem _ _ _, node?_setItem hnew _ _⟩

/-! ## Nodes that stay -/

theorem addItems_append (values : List Json) (before : List Item) (nodes : Array Node) :
    addItems values before nodes =
      ((addItems values [] nodes).1, before.reverse ++ (addItems values [] nodes).2) := by
  induction values generalizing before nodes with
  | nil => simp [addItems]
  | cons v rest ih =>
    simp only [addItems]
    rw [ih [(addTree v nodes).2], ih ((addTree v nodes).2 :: before)]
    simp

theorem addItems_cons (v : Json) (rest : List Json) (nodes : Array Node) :
    addItems (v :: rest) [] nodes = ((addItems rest [] (addTree v nodes).1).1,
      (addTree v nodes).2 :: (addItems rest [] (addTree v nodes).1).2) :=
  addItems_append rest [(addTree v nodes).2] (addTree v nodes).1

/-- Members are added like items, and their slots put under their keys. -/
theorem addMembers_eq (members : List (String × Json)) (before : KeyMap Item)
    (nodes : Array Node) :
    addMembers members before nodes = ((addItems (members.map (·.2)) [] nodes).1,
      ((members.map (·.1)).zip (addItems (members.map (·.2)) [] nodes).2).foldl
        (fun m e => m.insert e.1 e.2) before) := by
  induction members generalizing before nodes with
  | nil => rfl
  | cons m rest ih =>
    obtain ⟨key, v⟩ := m
    have hrest := ih (before.insert key (addTree v nodes).2) (addTree v nodes).1
    rw [List.map_cons, List.map_cons, addItems_cons, List.zip_cons_cons, List.foldl_cons]
    exact hrest

/-- **Nodes come behind others, and slots with them**, all of whose links lead to the nodes that
come. -/
def Appends (nodes : Array Node) (slots : List Item) (later : Array Node) : Prop :=
  ∃ more, later = nodes ++ more ∧ ∀ id,
    (.node id ∈ slots ∨ ∃ n ∈ more, .node id ∈ n.items) →
      nodes.size ≤ id ∧ id < later.size

section

variable {nodes mid later : Array Node} {slots more : List Item}

theorem Appends.append (h : Appends nodes slots mid) (h' : Appends mid more later) :
    Appends nodes (slots ++ more) later := by
  obtain ⟨first, rfl, hfirst⟩ := h
  obtain ⟨second, rfl, hsecond⟩ := h'
  simp only [Array.size_append] at hfirst hsecond
  refine ⟨first ++ second, Array.append_assoc, fun id hid => ?_⟩
  simp only [List.mem_append, Array.mem_append, or_and_right, exists_or, Array.size_append] at hid ⊢
  rcases hid with (hslot | hslot) | hnode | hnode
  · have hlt := hfirst id (.inl hslot)
    omega
  · have hlt := hsecond id (.inl hslot)
    omega
  · have hlt := hfirst id (.inr hnode)
    omega
  · have hlt := hsecond id (.inr hnode)
    omega

/-- A container comes behind what is inside it. -/
theorem Appends.push (h : Appends nodes slots mid) {n : Node} (hn : n.items ⊆ slots) :
    Appends nodes [.node mid.size] (mid.push n) := by
  obtain ⟨more, rfl, hmore⟩ := h
  refine ⟨more.push n, Array.append_push.symm, fun id hid => ?_⟩
  simp only [List.mem_singleton, Item.node.injEq, Array.mem_push, or_and_right, exists_or,
    exists_eq_left, Array.size_push, Array.size_append] at hid hmore ⊢
  rcases hid with rfl | hnode | hslot
  · omega
  · have hlt := hmore id (.inr hnode)
    omega
  · have hlt := hmore id (.inl (hn hslot))
    omega

end

/-- Items add nodes if each of them does. -/
theorem appends_addItems_of {values : List Json}
    (h : ∀ v ∈ values, ∀ nodes, Appends nodes [(addTree v nodes).2] (addTree v nodes).1)
    (nodes : Array Node) :
    Appends nodes (addItems values [] nodes).2 (addItems values [] nodes).1 := by
  induction values generalizing nodes with
  | nil => exact ⟨#[], Array.append_empty.symm, by simp [addItems]⟩
  | cons v rest ih =>
    obtain ⟨hv, hrest⟩ := List.forall_mem_cons.1 h
    rw [addItems_cons]
    exact (hv nodes).append (ih hrest _)

/-- **A tree adds nodes behind those that are there**, and none of these nodes links to them. -/
theorem appends_addTree (value : Json) (nodes : Array Node) :
    Appends nodes [(addTree value nodes).2] (addTree value nodes).1 := by
  induction value using Json.inductionOn generalizing nodes with
  | h v ih =>
    cases v with
    | array items =>
      exact (appends_addItems_of ih nodes).push (List.Subset.refl _)
    | object members =>
      have hadd : addTree (.object members) nodes =
          ((addItems (members.map (·.2)) [] nodes).1.push (.object (.ofList
            ((members.map (·.1)).zip (addItems (members.map (·.2)) [] nodes).2))),
          .node (addItems (members.map (·.2)) [] nodes).1.size) := by
        rw [addTree, addMembers_eq]
        rfl
      rw [hadd]
      refine (appends_addItems_of ih nodes).push fun x hx => ?_
      obtain ⟨⟨key, x⟩, hmem, rfl⟩ := List.mem_map.1 (KeyMap.values_ofList_subset _ hx)
      exact (List.of_mem_zip hmem).2
    | null | bool _ | number _ | string _ =>
      exact ⟨#[], Array.append_empty.symm, by simp [addTree]⟩

theorem appends_addItems (values : List Json) (nodes : Array Node) :
    Appends nodes (addItems values [] nodes).2 (addItems values [] nodes).1 :=
  appends_addItems_of (fun v _ => appends_addTree v) nodes

theorem exists_addTree (value : Json) (nodes : Array Node) :
    ∃ more, (addTree value nodes).1 = nodes ++ more := by
  obtain ⟨more, hmore, -⟩ := appends_addTree value nodes
  exact ⟨more, hmore⟩

theorem node?_add {id : NodeId} {n : Node} (h : c.node? id = some n) (value : Json) :
    (c.add value).1.node? id = some n := by
  obtain ⟨more, hmore⟩ := exists_addTree value c.nodes
  obtain ⟨hlt, -⟩ := Array.getElem?_eq_some_iff.1 h
  have hnodes : (c.add value).1.nodes = c.nodes ++ more := hmore
  rw [node?, hnodes, Array.getElem?_append_left hlt]
  exact h

/-! ## Members that stay -/

/-- Whether the root is an object. -/
def IsRooted (c : Content) : Prop :=
  ∃ id members, c.root = .node id ∧ c.node? id = some (.object members)

/-- Once a member of the root was set, the root is an object. -/
theorem isRooted_setItem (c : Content) (key : String) (item : Item) :
    (c.setItem key item).IsRooted := by
  have hnew : (setItem.onNewRoot key item c).IsRooted :=
    ⟨c.nodes.size, _, rfl, Array.getElem?_push_size⟩
  rw [setItem]
  split
  · next id hroot =>
    rw [insert?]
    split
    · next members hnode =>
      obtain ⟨hlt, -⟩ := Array.getElem?_eq_some_iff.1 hnode
      exact ⟨id, _, hroot, Array.getElem?_setIfInBounds_self_of_lt hlt⟩
    · exact hnew
  · exact hnew

theorem isRooted_set (c : Content) (key : String) (value : Json) : (c.set key value).IsRooted :=
  isRooted_setItem _ _ _

/-- Members of a root are found with its node. -/
theorem field?_of_root {id : NodeId} {members : KeyMap Item} (hroot : c.root = .node id)
    (hnode : c.node? id = some (.object members)) (key : String) :
    c.field? key = members.get? key := by
  have hfound : Item.node? (.node id) >>= c.node? = some (.object members) := hnode
  rw [field?, member?, hroot, hfound]

theorem IsRooted.add (h : c.IsRooted) (value : Json) : (c.add value).1.IsRooted := by
  obtain ⟨id, members, hroot, hnode⟩ := h
  exact ⟨id, members, hroot, node?_add hnode value⟩

theorem field?_add (h : c.IsRooted) (value : Json) (key : String) :
    (c.add value).1.field? key = c.field? key := by
  obtain ⟨id, members, hroot, hnode⟩ := h
  have hroot' : (c.add value).1.root = .node id := hroot
  rw [field?_of_root hroot hnode, field?_of_root hroot' (node?_add hnode value)]

theorem field?_setItem_of_ne (h : c.IsRooted) (hne : k ≠ key) (item : Item) :
    (c.setItem key item).field? k = c.field? k := by
  obtain ⟨id, members, hroot, hnode⟩ := h
  obtain ⟨hlt, -⟩ := Array.getElem?_eq_some_iff.1 hnode
  have hset : c.setItem key item =
      ⟨c.nodes.setIfInBounds id (.object (members.insert key item)), .node id⟩ := by
    rw [setItem, hroot]
    dsimp only
    rw [insert?, show c.nodes[id]? = some (.object members) from hnode, ← hroot]
    rfl
  have hnode' : (c.setItem key item).node? id = some (.object (members.insert key item)) := by
    rw [hset]
    exact Array.getElem?_setIfInBounds_self_of_lt hlt
  rw [field?_of_root hroot hnode, field?_of_root (by rw [hset]) hnode', KeyMap.get?_insert,
    if_neg hne]

/-- **Setting a member of a root leaves the other members as they are.** -/
theorem field?_set_of_ne (h : c.IsRooted) (hne : k ≠ key) (value : Json) :
    (c.set key value).field? k = c.field? k :=
  (field?_setItem_of_ne (h.add value) hne _).trans (field?_add h value k)

end Content

end DebugBridge

import DebugBridge.EngineEvent
import DebugBridge.Proofs.Content.Grown

/-!
# Proofs/EngineEvent — the context of a step, with four members on top

The context of a step is an arbitrary graph: nodes may be shared, the root may be linked from inside
it, and what stands under the four members that are set may be linked from elsewhere. Setting them
puts two nodes behind those of the context and changes the root, which keeps its number
(`content_eq`). So a link of the result is a link of the context, or one from the root to one of the
two nodes (`links_content`), and everything else is where it was (`content_on_top`).
-/

namespace DebugBridge

namespace Content

variable {c : Content} {root id i j : Nat} {members : KeyMap Item} {nodes more new : Array Node}

/-! ## Other members at the root -/

/-- The root is an object with this number and these members. -/
structure RootedAt (c : Content) (id : NodeId) (members : KeyMap Item) : Prop where
  root : c.root = .node id
  node : c.node? id = some (.object members)

theorem RootedAt.lt_size (h : c.RootedAt root members) : root < c.nodes.size :=
  (Array.getElem?_eq_some_iff.1 h.node).1

/-- A graph with other members at its root, and more nodes behind those that it has. -/
def extend (c : Content) (root : NodeId) (members : KeyMap Item) (more : Array Node) : Content :=
  ⟨c.nodes.setIfInBounds root (.object members) ++ more, .node root⟩

theorem node?_extend_root (h : root < c.nodes.size) (members : KeyMap Item) (more : Array Node) :
    (c.extend root members more).node? root = some (.object members) := by
  rw [node?, extend, Array.getElem?_append_left (by simpa using h)]
  exact Array.getElem?_setIfInBounds_self_of_lt h

theorem node?_extend_of_ne (hne : id ≠ root) (members : KeyMap Item) (more : Array Node) :
    (c.extend root members more).node? id = (c.nodes ++ more)[id]? := by
  rw [node?, extend, Array.getElem?_append, Array.getElem?_append, Array.size_setIfInBounds,
    Array.getElem?_setIfInBounds_ne hne.symm]

theorem RootedAt.extend_self (h : c.RootedAt root members) : c.extend root members #[] = c := by
  have hnode : c.nodes[root]? = some (.object members) := h.node
  obtain ⟨hlt, hget⟩ := Array.getElem?_eq_some_iff.1 hnode
  rw [extend, Array.append_empty, Array.setIfInBounds_def, dif_pos hlt, ← hget,
    Array.set_getElem_self, ← h.root]

/-- **Setting a member** puts it on top of the others at the root, and the nodes of the tree behind
those that are there. -/
theorem set_extend {value : Json} {item : Item} (h : root < c.nodes.size) (key : String)
    (hvalue : addTree value (c.extend root members more).nodes =
      ((c.extend root members more).nodes ++ new, item)) :
    (c.extend root members more).set key value =
      c.extend root (members.insert key item) (more ++ new) := by
  have hadd : (c.extend root members more).add value =
      (c.extend root members (more ++ new), item) := by
    rw [add, hvalue]
    exact congrArg (fun nodes => (Content.mk nodes (.node root), item)) Array.append_assoc
  have hroot : (c.extend root members (more ++ new)).root = .node root := rfl
  have hnode : (c.extend root members (more ++ new)).nodes[root]? = some (.object members) :=
    node?_extend_root h members (more ++ new)
  rw [set, hadd]
  dsimp only
  rw [setItem, hroot]
  dsimp only
  rw [insert?, hnode, extend, extend]
  simp [Array.setIfInBounds_append_left, h]

/-- Texts need no nodes. -/
theorem addItems_strings {α : Type} (text : α → String) (l : List α) (nodes : Array Node) :
    addItems (l.map fun x => .string (text x)) [] nodes =
      (nodes, l.map fun x => .string (text x)) := by
  induction l with
  | nil => rfl
  | cons x l ih => rw [List.map_cons, addItems_cons, addTree, ih, List.map_cons]

end Content

namespace Step

variable {step : Step} {tags : List StepTag} {root id i j : Nat} {members : KeyMap Item}

/-- The object with the name of an opcode. -/
def opcodeNode (step : Step) : Node :=
  .object (KeyMap.empty.insert "name" (.string step.opcode))

/-- The array of the names of tags. -/
def tagsNode (tags : List StepTag) : Node :=
  .array (tags.map fun tag => .string tag.name)

/-- The members of the root with those of the step on top, its two containers behind the nodes of
the context. -/
def onTop (step : Step) (members : KeyMap Item) : KeyMap Item :=
  members.insert "pc" (.ofWord step.pc)
    |>.insert "address" (.string step.address.text)
    |>.insert "opcode" (.node step.context.nodes.size)
    |>.insert "specialEvents" (.node (step.context.nodes.size + 1))

/-- **The content of a step as a whole.** -/
theorem content_eq (h : step.context.RootedAt root members) (tags : List StepTag) :
    step.content tags =
      step.context.extend root (step.onTop members) #[step.opcodeNode, tagsNode tags] := by
  have hlt := h.lt_size
  have hpc (nodes : Array Node) :
      Content.addTree (.ofWord step.pc) nodes = (nodes ++ #[], .ofWord step.pc) := by
    rw [Json.ofWord, Content.addTree, Array.append_empty, Item.ofWord]
  have haddress (nodes : Array Node) : Content.addTree (.string step.address.text) nodes =
      (nodes ++ #[], .string step.address.text) := by
    rw [Content.addTree, Array.append_empty]
  have hopcode (nodes : Array Node) :
      Content.addTree (.object [("name", .string step.opcode)]) nodes =
        (nodes ++ #[step.opcodeNode], .node nodes.size) := by
    simp only [Content.addTree, Content.addMembers, opcodeNode, Array.append_singleton]
  have htags (nodes : Array Node) :
      Content.addTree (.array (tags.map fun tag => .string tag.name)) nodes =
        (nodes ++ #[tagsNode tags], .node nodes.size) := by
    rw [Content.addTree, Content.addItems_strings, Array.append_singleton]
    rfl
  have hsize (members : KeyMap Item) (more : Array Node) :
      (step.context.extend root members more).nodes.size = step.context.nodes.size + more.size := by
    simp [Content.extend]
  rw [content]
  conv_lhs => rw [← h.extend_self]
  rw [Content.set_extend hlt _ (hpc _), Content.set_extend hlt _ (haddress _),
    Content.set_extend hlt _ (hopcode _), Content.set_extend hlt _ (htags _)]
  simp [hsize, onTop]

theorem mem_onTop (h : .node j ∈ (step.onTop members).values) :
    .node j ∈ members.values ∨ j = step.context.nodes.size ∨ j = step.context.nodes.size + 1 := by
  rcases KeyMap.mem_values_insert h with hevents | h
  · exact .inr (.inr (Item.node.inj hevents))
  rcases KeyMap.mem_values_insert h with hopcode | h
  · exact .inr (.inl (Item.node.inj hopcode))
  rcases KeyMap.mem_values_insert h with haddress | h
  · cases haddress
  rcases KeyMap.mem_values_insert h with hpc | h
  · cases hpc
  · exact .inl h

theorem node?_content_root (h : step.context.RootedAt root members) (tags : List StepTag) :
    (step.content tags).node? root = some (.object (step.onTop members)) := by
  rw [content_eq h]
  exact Content.node?_extend_root h.lt_size _ _

theorem node?_content_of_ne (h : step.context.RootedAt root members) (tags : List StepTag)
    (hne : id ≠ root) : (step.content tags).node? id =
      (step.context.nodes ++ #[step.opcodeNode, tagsNode tags])[id]? := by
  rw [content_eq h]
  exact Content.node?_extend_of_ne hne _ _

/-- A node other than the root stays what it is. -/
theorem node?_content (h : step.context.RootedAt root members) (tags : List StepTag)
    (hne : id ≠ root) {n : Node} (here : step.context.node? id = some n) :
    (step.content tags).node? id = some n := by
  obtain ⟨hlt, -⟩ := Array.getElem?_eq_some_iff.1 here
  rw [node?_content_of_ne h tags hne, Array.getElem?_append_left hlt]
  exact here

theorem isSome_node?_content (h : step.context.RootedAt root members) (tags : List StepTag) :
    ((step.content tags).node? id).isSome ↔ id < step.context.nodes.size + 2 := by
  rw [Content.isSome_node?_iff, content_eq h]
  simp [Content.extend]

/-- **The only new links** are those of the root to the two nodes that are new. -/
theorem links_content (h : step.context.RootedAt root members)
    (link : (step.content tags).Links i j) : step.context.Links i j ∨ i = root ∧
      (j = step.context.nodes.size ∨ j = step.context.nodes.size + 1) := by
  obtain ⟨n, here, slot⟩ := link
  by_cases hne : i = root
  · subst hne
    obtain rfl := Option.some.inj (here.symm.trans (node?_content_root h tags))
    rcases mem_onTop slot with hold | hnew
    · exact .inl ⟨_, h.node, hold⟩
    · exact .inr ⟨rfl, hnew⟩
  · rw [node?_content_of_ne h tags hne, Array.getElem?_append] at here
    split at here
    · exact .inl ⟨n, here, slot⟩
    · have hmem := Array.mem_of_getElem? here
      simp only [List.mem_toArray, List.mem_cons, List.not_mem_nil, or_false] at hmem
      rcases hmem with rfl | rfl
      · rcases KeyMap.mem_values_insert slot with hname | hempty
        · cases hname
        · cases hempty
      · obtain ⟨tag, -, htag⟩ := List.mem_map.1 slot
        cases htag

theorem intact_content (h : step.context.RootedAt root members) (intact : step.context.Intact)
    (tags : List StepTag) : (step.content tags).Intact := by
  refine ⟨fun id hid => ?_, fun i j link => (isSome_node?_content h tags).2 ?_⟩
  · rw [content_eq h] at hid
    obtain rfl : root = id := Item.node.inj hid
    rw [node?_content_root h]
    rfl
  · rcases links_content h link with hold | ⟨-, hnew⟩
    · have hlt := Content.isSome_node?_iff.1 (intact.links i j hold)
      omega
    · omega

/-- What the content reaches, the context reaches, the two new nodes apart. -/
theorem reaches_content (h : step.context.RootedAt root members)
    (hid : (step.content tags).Reaches id) : step.context.Reaches id ∨
      id = step.context.nodes.size ∨ id = step.context.nodes.size + 1 := by
  induction hid with
  | @root id hroot =>
    rw [content_eq h] at hroot
    exact .inl (.root (h.root.trans hroot))
  | @step i j n _ here slot ih =>
    rcases links_content h ⟨n, here, slot⟩ with ⟨n', here', slot'⟩ | ⟨-, hnew⟩
    · rcases ih with hreach | hnew
      · exact .inl (hreach.step here' slot')
      · have hlt := (Array.getElem?_eq_some_iff.1 here').1
        omega
    · exact .inr hnew

theorem closed_content (h : step.context.RootedAt root members) (closed : step.context.Closed)
    (tags : List StepTag) : (step.content tags).Closed := by
  refine fun id hid => (isSome_node?_content h tags).2 ?_
  rcases reaches_content h hid with hreach | hnew
  · have hlt := Content.isSome_node?_iff.1 (closed id hreach)
    omega
  · omega

/-- A path to the root leaves other nodes only, until it gets there. -/
theorem path_content (h : step.context.RootedAt root members) (tags : List StepTag)
    (path : Relation.ReflTransGen step.context.Links id root) :
    Relation.ReflTransGen (step.content tags).Links id root := by
  induction path using Relation.ReflTransGen.head_induction_on with
  | refl => exact .refl
  | @head i j link _ ih =>
    by_cases hne : i = root
    · rw [hne]
    · obtain ⟨n, here, slot⟩ := link
      exact .head ⟨n, node?_content h tags hne here, slot⟩ ih

/-- **The content of a step is its context with four members on top.** -/
theorem content_on_top (h : step.context.RootedAt root members) (tags : List StepTag) :
    (∃ members', (step.content tags).RootedAt root members' ∧
      (∀ key, key ∉ ["pc", "address", "opcode", "specialEvents"] →
        members'.get? key = members.get? key) ∧
      members'.get? "pc" = some (.ofWord step.pc) ∧
      members'.get? "address" = some (.string step.address.text) ∧
      (∃ id name, members'.get? "opcode" = some (.node id) ∧
        (step.content tags).node? id = some (.object name) ∧
        name.entries = [("name", .string step.opcode)]) ∧
      ∃ id, members'.get? "specialEvents" = some (.node id) ∧
        (step.content tags).node? id =
          some (.array (tags.map fun tag => .string tag.name))) ∧
      (∀ id n, id ≠ root → step.context.node? id = some n →
        (step.content tags).node? id = some n) ∧
      (step.context.Intact → (step.content tags).Intact) ∧
      (step.context.Closed → (step.content tags).Closed) ∧
      ∀ id, Relation.ReflTransGen step.context.Links id root →
        Relation.ReflTransGen (step.content tags).Links id root := by
  have hlt := h.lt_size
  refine ⟨⟨step.onTop members, ⟨?_, node?_content_root h tags⟩, fun key hkey => ?_, ?_, ?_,
    ⟨step.context.nodes.size, KeyMap.empty.insert "name" (.string step.opcode), ?_, ?_, rfl⟩,
    step.context.nodes.size + 1, ?_, ?_⟩,
    fun id n hne here => node?_content h tags hne here, fun intact => intact_content h intact tags,
    fun closed => closed_content h closed tags, fun id path => path_content h tags path⟩
  · rw [content_eq h]
    rfl
  · simp only [List.mem_cons, List.not_mem_nil, or_false, not_or] at hkey
    simp [onTop, hkey]
  · simp [onTop]
  · simp [onTop]
  · simp [onTop]
  · rw [node?_content_of_ne h tags (by omega)]
    simp [opcodeNode]
  · simp [onTop]
  · rw [node?_content_of_ne h tags (by omega)]
    simp [tagsNode]

/-- A step whose context holds its root inside itself, and under two of the four members a node that
is linked from elsewhere. -/
def knotted : Step where
  address := ⟨"c0de"⟩
  pc := 7
  opcode := "CALL"
  estimatingGas := false
  context := ⟨#[.object (.ofList [("opcode", .node 1), ("pc", .node 1), ("stack", .node 1)]),
    .array [.node 0, .node 1]], .node 0⟩

theorem content_on_top_knotted :
    (∃ members, knotted.context.RootedAt 0 members ∧
      members.get? "pc" = some (.node 1) ∧ members.get? "stack" = some (.node 1)) ∧
    ∃ members, (knotted.content [.jump, .breakpoint]).RootedAt 0 members ∧
      members.get? "pc" = some (.ofWord 7) ∧ members.get? "stack" = some (.node 1) ∧
      (knotted.content [.jump, .breakpoint]).node? 1 = some (.array [.node 0, .node 1]) ∧
      Relation.ReflTransGen (knotted.content [.jump, .breakpoint]).Links 1 0 := by
  have h : knotted.context.RootedAt 0
      (.ofList [("opcode", .node 1), ("pc", .node 1), ("stack", .node 1)]) := ⟨rfl, rfl⟩
  obtain ⟨⟨members, hroot, hkeep, hpc, -⟩, hnodes, -, -, hpaths⟩ :=
    content_on_top h [.jump, .breakpoint]
  have hlink : knotted.context.Links 1 0 := ⟨.array [.node 0, .node 1], rfl, by decide⟩
  exact ⟨⟨_, h, by decide, by decide⟩, members, hroot, hpc,
    (hkeep "stack" (by decide)).trans (by decide), hnodes 1 _ (by decide) rfl,
    hpaths 1 (.single hlink)⟩

end Step

end DebugBridge

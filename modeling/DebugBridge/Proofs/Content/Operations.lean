import DebugBridge.Proofs.Content.Cycles
import DebugBridge.Proofs.Content.Setting

/-!
# Proofs/Content/Operations — what one operation does to a graph

A graph is built by operations that add nodes, edit the nodes that are there, or replace the root.
Each of them is given some slots and is aimed at one node at most. What it comes to is said once for
all of them (`Updates`):

* the node that it is aimed at is edited, and every other node stays what it is;
* a link that is stored afterwards was stored before, or was given, or leads to a node that is new.

Two updates one after the other are an update (`Updates.trans`), and every operation is made of a
few that are plain to see, so `updates_perform` goes through the operations one by one. It follows
that no operation makes a link dangle when none of those that it is given does (`Intact.perform`).
-/

namespace DebugBridge

/-! ## Edits -/

/-- A change inside one container: a member that is set, or an item that is added at the end. -/
inductive Edit where
  | member (key : String) (item : Item)
  | append (item : Item)
  deriving DecidableEq, Repr

/-- The slot that an edit puts into the container. -/
def Edit.item : Edit → Item
  | .member _ item | .append item => item

namespace Node

inductive Kind where
  | array
  | object
  deriving DecidableEq, Repr

def kind : Node → Kind
  | .array _ => .array
  | .object _ => .object

/-- **A container after an edit.** An edit for the other kind of container leaves it as it is. -/
def edit : Node → Edit → Node
  | .array items, .append item => .array (items ++ [item])
  | .object members, .member key item => .object (members.insert key item)
  | n, _ => n

@[simp] theorem kind_edit (n : Node) (e : Edit) : (n.edit e).kind = n.kind := by
  cases n <;> cases e <;> rfl

theorem kind_foldl_edit (n : Node) (edits : List Edit) : (edits.foldl edit n).kind = n.kind := by
  induction edits generalizing n with
  | nil => rfl
  | cons e edits ih => rw [List.foldl_cons, ih, kind_edit]

theorem mem_items_edit {n : Node} {e : Edit} {x : Item} (h : x ∈ (n.edit e).items) :
    x = e.item ∨ x ∈ n.items := by
  cases n with
  | array items =>
    cases e with
    | append item => exact (List.mem_append.1 h).symm.imp_left List.mem_singleton.1
    | member key item => exact .inr h
  | object members =>
    cases e with
    | append item => exact .inr h
    | member key item => exact KeyMap.mem_values_insert h

end Node

namespace Content

/-! ## Operations -/

/-- An operation on a graph. -/
inductive Operation where
  | allocObject
  | allocArray
  | insert (id : NodeId) (key : String) (item : Item)
  | push (id : NodeId) (item : Item)
  | set (key : String) (value : Json)
  | setItem (key : String) (item : Item)
  | setRoot (item : Item)
  | add (value : Json)
  deriving Repr

/-- The slots that an operation is given. A number of a node counts as the link to it. -/
def Operation.given : Operation → List Item
  | .insert id _ item | .push id item => [.node id, item]
  | .setItem _ item | .setRoot item => [item]
  | .allocObject | .allocArray | .set _ _ | .add _ => []

/-- **A graph after an operation**, and the slot that the operation hands out, which is null if
there is none. What is not possible leaves the graph as it is. -/
def perform (c : Content) : Operation → Content × Item
  | .allocObject => (c.allocObject.1, .node c.allocObject.2)
  | .allocArray => (c.allocArray.1, .node c.allocArray.2)
  | .insert id key item => ((c.insert? id key item).getD c, .null)
  | .push id item => ((c.push? id item).getD c, .null)
  | .set key value => (c.set key value, .null)
  | .setItem key item => (c.setItem key item, .null)
  | .setRoot item => (c.setRoot item, .null)
  | .add value => c.add value

/-- The number of the root, if the root is an object. -/
def rootObject? (c : Content) : Option NodeId :=
  c.root.node?.filter fun id => (c.node? id).any (·.kind = .object)

/-- **The node that an operation is aimed at**, and the edit that is meant for it. -/
def aim? (c : Content) : Operation → Option (NodeId × Edit)
  | .insert id key item => some (id, .member key item)
  | .push id item => some (id, .append item)
  | .set key value => c.rootObject?.map fun id => (id, .member key (c.add value).2)
  | .setItem key item => c.rootObject?.map fun id => (id, .member key item)
  | .allocObject | .allocArray | .setRoot _ | .add _ => none

/-- The number of the node that an operation is aimed at. -/
def targetOf? (c : Content) (op : Operation) : Option NodeId :=
  (c.aim? op).map (·.1)

/-- The edits that an aim means for the node with a number. -/
def editsAt (aim : Option (NodeId × Edit)) (id : NodeId) : List Edit :=
  aim.toList.filterMap fun a => if a.1 = id then some a.2 else none

variable {c c₁ c₂ : Content} {aim : Option (NodeId × Edit)} {given later : List Item} {id : NodeId}
  {n : Node} {e : Edit} {item : Item} {key : String}

@[simp] theorem editsAt_some (target : NodeId) (e : Edit) (id : NodeId) :
    editsAt (some (target, e)) id = if target = id then [e] else [] := by
  by_cases h : target = id <;> simp [editsAt, h]

theorem editsAt_eq_nil (h : aim.map (·.1) ≠ some id) : editsAt aim id = [] := by
  cases aim with
  | none => rfl
  | some a => simpa [editsAt] using h

/-! ## Updates -/

/-- Whether a link to a node is stored, in the root or in a slot of a node. -/
def Stores (c : Content) (id : NodeId) : Prop :=
  c.root = .node id ∨ ∃ i, c.Links i id

theorem intact_iff : c.Intact ↔ ∀ id, c.Stores id → (c.node? id).isSome := by
  constructor
  · rintro h id (hroot | ⟨i, link⟩)
    · exact h.root id hroot
    · exact h.links i id link
  · exact fun h => ⟨fun id hroot => h id (.inl hroot), fun i id link => h id (.inr ⟨i, link⟩)⟩

/-- Whether a number is that of a node that has come to a graph. -/
def Gains (c c' : Content) (id : NodeId) : Prop :=
  c.node? id = none ∧ (c'.node? id).isSome

/-- **What leads from a graph to a later one**, when it is aimed at one node and is given some
slots. -/
structure Updates (c : Content) (aim : Option (NodeId × Edit)) (given : List Item) (c' : Content) :
    Prop where
  node : ∀ id n, c.node? id = some n → c'.node? id = some ((editsAt aim id).foldl Node.edit n)
  stores : ∀ id, c'.Stores id → c.Stores id ∨ .node id ∈ given ∨ c.Gains c' id

namespace Updates

theorem isSome (h : c.Updates aim given c₁) (here : (c.node? id).isSome) :
    (c₁.node? id).isSome := by
  obtain ⟨n, hn⟩ := Option.isSome_iff_exists.1 here
  rw [h.node id n hn]
  rfl

/-- **Nothing dangles after an update** if nothing did before, and nothing that was given does. -/
theorem intact (h : c.Updates aim given c₁) (intact : c.Intact)
    (hgiven : ∀ id, .node id ∈ given → (c.node? id).isSome) : c₁.Intact := by
  refine intact_iff.2 fun id hid => ?_
  rcases h.stores id hid with hstored | hslot | hgained
  · exact h.isSome (intact_iff.1 intact id hstored)
  · exact h.isSome (hgiven id hslot)
  · exact hgained.2

/-- **Two updates in a row.** What the second one is given was given to the first, or leads to a
node that has come with the first. -/
theorem trans (h : c.Updates none given c₁) (h' : c₁.Updates aim later c₂)
    (hlater : ∀ id, .node id ∈ later → .node id ∈ given ∨ c.Gains c₁ id) :
    c.Updates aim given c₂ where
  node id n hn := h'.node id n (h.node id n hn)
  stores id hid := by
    have gains (hgained : c.Gains c₁ id) : c.Gains c₂ id := ⟨hgained.1, h'.isSome hgained.2⟩
    rcases h'.stores id hid with hstored | hslot | hgained
    · exact (h.stores id hstored).imp_right (Or.imp_right gains)
    · exact .inr ((hlater id hslot).imp_right gains)
    · refine .inr (.inr ⟨?_, hgained.2⟩)
      by_contra hsome
      have hold := h.isSome (Option.isSome_iff_ne_none.2 hsome)
      rw [hgained.1] at hold
      cases hold

end Updates

/-! ### Nodes behind those that are there -/

theorem gains_append {more : Array Node} {root : Item} (hle : c.nodes.size ≤ id)
    (hlt : id < c.nodes.size + more.size) : c.Gains ⟨c.nodes ++ more, root⟩ id :=
  ⟨Array.getElem?_eq_none hle, isSome_node?_iff.2 (by rwa [Array.size_append])⟩

/-- New nodes and a new root are an update if what they link to was stored or given, or is new. -/
theorem updates_append {more : Array Node} {root : Item}
    (hroot : ∀ id, root = .node id → c.Stores id ∨ .node id ∈ given ∨
      c.nodes.size ≤ id ∧ id < c.nodes.size + more.size)
    (hmore : ∀ n ∈ more, ∀ id, .node id ∈ n.items → .node id ∈ given ∨
      c.nodes.size ≤ id ∧ id < c.nodes.size + more.size) :
    c.Updates none given ⟨c.nodes ++ more, root⟩ where
  node id n hn := by
    obtain ⟨hlt, -⟩ := Array.getElem?_eq_some_iff.1 hn
    exact (Array.getElem?_append_left hlt).trans hn
  stores id hid := by
    have gains : c.nodes.size ≤ id ∧ id < c.nodes.size + more.size →
        c.Gains ⟨c.nodes ++ more, root⟩ id := fun h => gains_append h.1 h.2
    rcases hid with heq | ⟨i, n, hn, slot⟩
    · exact (hroot id heq).imp_right (Or.imp_right gains)
    · rw [node?, Array.getElem?_append] at hn
      split at hn
      · exact .inl (.inr ⟨i, n, hn, slot⟩)
      · exact .inr ((hmore n (Array.mem_of_getElem? hn) id slot).imp_right gains)

theorem updates_alloc (hn : n.items ⊆ given) : c.Updates none given (c.alloc n).1 := by
  have h : c.Updates none given ⟨c.nodes ++ #[n], c.root⟩ := by
    refine updates_append (fun id hid => .inl (.inl hid)) fun m hm id slot => .inl (hn ?_)
    obtain rfl := Array.mem_singleton.1 hm
    exact slot
  rwa [Array.append_singleton] at h

theorem updates_setRoot (h : ∀ id, item = .node id → .node id ∈ given) :
    c.Updates none given (c.setRoot item) := by
  have hupdates : c.Updates none given ⟨c.nodes ++ #[], item⟩ :=
    updates_append (fun id hid => .inr (.inl (h id hid))) (by simp)
  rwa [Array.append_empty] at hupdates

/-- **A tree that is added is an update**, and the slot that stands for it links to a new node. -/
theorem updates_add (c : Content) (value : Json) : c.Updates none [] (c.add value).1 ∧
    ∀ id, (c.add value).2 = .node id → c.Gains (c.add value).1 id := by
  obtain ⟨more, hmore, hlinks⟩ := appends_addTree value c.nodes
  have hadd : (c.add value).1 = ⟨c.nodes ++ more, c.root⟩ := by
    rw [add, ← hmore]
  rw [hmore, Array.size_append] at hlinks
  rw [hadd]
  refine ⟨updates_append (fun id hid => .inl (.inl hid)) fun n hn id slot => .inr ?_,
    fun id hid => ?_⟩
  · exact hlinks id (.inr ⟨n, hn, slot⟩)
  · obtain ⟨hle, hlt⟩ := hlinks id (.inl (List.mem_singleton.2 hid.symm))
    exact gains_append hle hlt

/-! ### Edits of one node -/

/-- **Editing a node is an update** that is aimed at it. -/
theorem updates_edit (hn : c.node? id = some n) (h : e.item ∈ given) :
    c.Updates (some (id, e)) given { c with nodes := c.nodes.setIfInBounds id (n.edit e) } := by
  obtain ⟨hlt, -⟩ := Array.getElem?_eq_some_iff.1 hn
  have hnode (j : NodeId) : (c.nodes.setIfInBounds id (n.edit e))[j]? =
      if id = j then some (n.edit e) else c.node? j := by
    rw [Array.getElem?_setIfInBounds, if_pos hlt]
    rfl
  constructor
  case node =>
    intro j m hm
    rw [node?, hnode, editsAt_some]
    split
    · next heq =>
      obtain rfl := Option.some.inj (hn.symm.trans (heq ▸ hm))
      rfl
    · exact hm
  case stores =>
    rintro j (hroot | ⟨i, m, hm, slot⟩)
    · exact .inl (.inl hroot)
    · rw [node?, hnode] at hm
      split at hm
      · obtain rfl := Option.some.inj hm
        rcases Node.mem_items_edit slot with heq | hold
        · exact .inr (.inl (heq ▸ h))
        · exact .inl (.inr ⟨id, n, hn, hold⟩)
      · exact .inl (.inr ⟨i, m, hm, slot⟩)

/-- Where the edit changes nothing, leaving the graph as it is makes the same update. -/
theorem updates_refused (h : ∀ n, c.node? id = some n → n.edit e = n) :
    c.Updates (some (id, e)) given c where
  node j n hn := by
    rw [editsAt_some]
    split
    · next heq => rw [List.foldl_cons, List.foldl_nil, h n (heq ▸ hn), hn]
    · exact hn
  stores _ hj := .inl hj

theorem updates_insert (c : Content) (id : NodeId) (key : String) (h : item ∈ given) :
    c.Updates (some (id, .member key item)) given ((c.insert? id key item).getD c) := by
  rw [insert?]
  split
  · next members hnode => exact updates_edit (e := .member key item) hnode h
  · next hnode =>
    refine updates_refused fun n hn => ?_
    cases n with
    | array items => rfl
    | object members => exact absurd hn (hnode members)

theorem updates_push (c : Content) (id : NodeId) (h : item ∈ given) :
    c.Updates (some (id, .append item)) given ((c.push? id item).getD c) := by
  rw [push?]
  split
  · next items hnode => exact updates_edit (e := .append item) hnode h
  · next hnode =>
    refine updates_refused fun n hn => ?_
    cases n with
    | array items => exact absurd hn (hnode items)
    | object members => rfl

/-! ### Members of the root -/

theorem rootObject?_eq_some_iff : c.rootObject? = some id ↔
    c.root = .node id ∧ ∃ members, c.node? id = some (.object members) := by
  rw [rootObject?, Option.filter_eq_some_iff]
  refine and_congr ?_ ?_
  · cases c.root <;> simp [Item.node?]
  · cases hn : c.node? id with
    | none => simp
    | some n => cases n <;> simp [Node.kind]

/-- A member of a root that is an object is inserted there. -/
theorem setItem_of_some (h : c.rootObject? = some id) (key : String) (item : Item) :
    c.setItem key item = (c.insert? id key item).getD c := by
  obtain ⟨hroot, members, hnode⟩ := rootObject?_eq_some_iff.1 h
  rw [setItem, hroot]
  dsimp only
  rw [insert?, show c.nodes[id]? = some (.object members) from hnode]
  rfl

/-- Any other root is replaced. -/
theorem setItem_of_none (h : c.rootObject? = none) (key : String) (item : Item) :
    c.setItem key item = setItem.onNewRoot key item c := by
  rw [setItem]
  split
  · next id hroot =>
    rw [insert?]
    split
    · next members hnode =>
      rw [rootObject?_eq_some_iff.2 ⟨hroot, members, hnode⟩] at h
      cases h
    · rfl
  · rfl

theorem updates_onNewRoot (c : Content) (key : String) (h : item ∈ given) :
    c.Updates none given (setItem.onNewRoot key item c) := by
  have hnew : setItem.onNewRoot key item c =
      ⟨c.nodes ++ #[.object (KeyMap.empty.insert key item)], .node c.nodes.size⟩ := by
    rw [Array.append_singleton]
    rfl
  rw [hnew]
  refine updates_append (fun id hid => .inr (.inr ?_)) fun n hn id slot => .inl ?_
  · obtain rfl := Item.node.inj hid
    exact ⟨Nat.le_refl _, Nat.lt_succ_self _⟩
  · obtain rfl := Array.mem_singleton.1 hn
    rcases KeyMap.mem_values_insert slot with heq | hempty
    · exact heq ▸ h
    · cases hempty

theorem updates_setItem (c : Content) (key : String) (item : Item) :
    c.Updates (c.aim? (.setItem key item)) [item] (c.setItem key item) := by
  rw [aim?]
  cases h : c.rootObject? with
  | none =>
    rw [setItem_of_none h]
    exact updates_onNewRoot c key (List.mem_singleton_self item)
  | some id =>
    rw [setItem_of_some h]
    exact updates_insert c id key (List.mem_singleton_self item)

/-- A root that does not dangle is an object after a tree was added if it was one before. -/
theorem rootObject?_add (intact : c.Intact) (value : Json) :
    (c.add value).1.rootObject? = c.rootObject? := by
  have hroot : (c.add value).1.root = c.root := rfl
  refine Option.ext fun id => ?_
  rw [rootObject?_eq_some_iff, rootObject?_eq_some_iff, hroot]
  refine and_congr_right fun hid => ?_
  obtain ⟨n, hn⟩ := Option.isSome_iff_exists.1 (intact.root id hid)
  rw [hn, node?_add hn]

theorem updates_set (intact : c.Intact) (key : String) (value : Json) :
    c.Updates (c.aim? (.set key value)) [] (c.set key value) := by
  obtain ⟨hadd, hslot⟩ := updates_add c value
  have hset := updates_setItem (c.add value).1 key (c.add value).2
  rw [aim?, rootObject?_add intact] at hset
  refine hadd.trans hset fun id hid => .inr (hslot id ?_)
  exact (List.mem_singleton.1 hid).symm

/-! ## Every operation -/

/-- **What an operation comes to**, on a graph without dangling links. -/
theorem updates_perform (intact : c.Intact) (op : Operation) :
    c.Updates (c.aim? op) op.given (c.perform op).1 := by
  cases op with
  | allocObject => exact updates_alloc (List.nil_subset _)
  | allocArray => exact updates_alloc (List.nil_subset _)
  | insert id key item => exact updates_insert c id key (by simp [Operation.given])
  | push id item => exact updates_push c id (by simp [Operation.given])
  | set key value => exact updates_set intact key value
  | setItem key item => exact updates_setItem c key item
  | setRoot item => exact updates_setRoot fun id hid => by simp [Operation.given, hid]
  | add value => exact (updates_add c value).1

/-- **What an operation hands out is the number of a node that is new.** -/
theorem gains_perform {op : Operation} (h : (c.perform op).2 = .node id) :
    c.Gains (c.perform op).1 id := by
  have halloc (n : Node) (h : Item.node (c.alloc n).2 = .node id) : c.Gains (c.alloc n).1 id := by
    obtain rfl := Item.node.inj h
    exact ⟨Array.getElem?_eq_none (Nat.le_refl _), isSome_node?_iff.2 (by simp [alloc])⟩
  cases op with
  | allocObject => exact halloc _ h
  | allocArray => exact halloc _ h
  | add value => exact (updates_add c value).2 id h
  | insert _ _ _ | push _ _ | set _ _ | setItem _ _ | setRoot _ => cases h

/-- **An operation makes no link dangle**, if none dangles and none that it is given does. -/
theorem Intact.perform (intact : c.Intact) {op : Operation}
    (hgiven : ∀ id, .node id ∈ op.given → (c.node? id).isSome) : (c.perform op).1.Intact :=
  (updates_perform intact op).intact intact hgiven

/-- **No link of the graph of a tree dangles**, since what is added for the tree links to what is
added. -/
theorem intact_ofJson (v : Json) : (ofJson v).Intact := by
  have hnull : null.Intact := by
    refine ⟨nofun, ?_⟩
    rintro i j ⟨n, hn, -⟩
    cases hn
  obtain ⟨hadd, hslot⟩ := updates_add null v
  have hintact : (null.add v).1.Intact := hadd.intact hnull nofun
  show ((null.add v).1.perform (.setRoot (null.add v).2)).1.Intact
  refine hintact.perform fun id hid => (hslot id ?_).2
  exact (List.mem_singleton.1 hid).symm

end Content

end DebugBridge

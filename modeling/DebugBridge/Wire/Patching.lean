import DebugBridge.Wire.Decoding

/-!
# Wire/Patching — references that are filled in afterwards

A tree with references can be read by one walk, which meets references to containers that it has not
come to yet. It gives every container a node, notes the number under the pointer of the container,
and fills the slots from left to right; into the slot of a reference it puts null, and makes a patch
for it. When the walk is over every container has its number, and the patches put the links where
the nulls are, one after the other.

What the walk has made so far is a `Draft`, and the whole is `Content.assemble`.
-/

namespace DebugBridge

namespace Wire

/-- Which slot of a container: an item, or the member under a key of the node. -/
inductive SlotName where
  | item (index : Nat)
  | member (key : String)
  deriving DecidableEq, Repr

/-- A slot that waits for the container it refers to. -/
structure Patch where
  parent : NodeId
  slot : SlotName
  target : String
  deriving DecidableEq, Repr

/-- What a value is read as: a slot, or a reference that has to wait. -/
inductive Reading where
  | slot (item : Item)
  | reference (target : String)
  deriving DecidableEq, Repr

/-- **A graph in the making**, with the number of each container under its pointer and the slots
that wait. -/
structure Draft where
  content : Content := .null
  numbers : KeyMap NodeId := .empty
  patches : List Patch := []
  deriving DecidableEq, Repr

end Wire

open Wire

namespace Content

/-- Replaces the item of the array with number `id` at an index; nothing when there is none. -/
def replaceAt? (c : Content) (id : NodeId) (index : Nat) (item : Item) : Option Content :=
  match c.nodes[id]? with
  | some (.array items) =>
    if index < items.length then
      some { c with nodes := c.nodes.setIfInBounds id (.array (items.set index item)) }
    else none
  | _ => none

/-- Fills the next slot of a container. -/
def fillSlot (c : Content) (parent : NodeId) (slot : SlotName) (item : Item) : Content :=
  match slot with
  | .item _ => (c.push? parent item).getD c
  | .member key => (c.insert? parent key item).getD c

/-- Fills a slot of a container again. -/
def refillSlot (c : Content) (parent : NodeId) (slot : SlotName) (item : Item) : Content :=
  match slot with
  | .item index => (c.replaceAt? parent index item).getD c
  | .member key => (c.insert? parent key item).getD c

end Content

namespace Wire

/-- What is in the slot until all containers have numbers. -/
def Reading.draft : Reading → Item
  | .slot item => item
  | .reference _ => .null

/-- The patch for a slot, if it has to wait. -/
def Reading.patches (parent : NodeId) (slot : SlotName) : Reading → List Patch
  | .slot _ => []
  | .reference target => [⟨parent, slot, target⟩]

namespace Draft

/-- Gives a container without slots a node, and notes its number. -/
def alloc (d : Draft) (pointer : String) (node : Node) : Draft × NodeId :=
  let (content, id) := d.content.alloc node
  ({ d with content, numbers := d.numbers.insert pointer id }, id)

/-- Fills the next slot of a container with what was read for it. -/
def put (d : Draft) (parent : NodeId) (slot : SlotName) (reading : Reading) : Draft :=
  { d with
    content := d.content.fillSlot parent slot reading.draft
    patches := d.patches ++ reading.patches parent slot }

end Draft

mutual

/-- Reads the value at a pointer, with its containers behind those that are there. -/
def read : Json → (pointer : String) → Draft → Except WireError (Reading × Draft)
  | .null, _, d => .ok (.slot .null, d)
  | .bool value, _, d => .ok (.slot (.bool value), d)
  | .number value, _, d => .ok (.slot (.number value), d)
  | .string text, _, d => .ok (.slot (.string text), d)
  | .array values, pointer, d => do
    let (d, id) := d.alloc pointer (.array [])
    let d ← readItems values id pointer 0 d
    return (.slot (.node id), d)
  | .object members, pointer, d =>
    match objectKind members with
    | .reference target => .ok (.reference target, d)
    | .malformed => .error (.malformedReference pointer)
    | .plain => do
      let (d, id) := d.alloc pointer (.object .empty)
      let d ← readMembers members id pointer d
      return (.slot (.node id), d)
  termination_by structural value => value

/-- Reads the items of the array with number `parent`, from an index on. -/
def readItems : List Json → (parent : NodeId) → (pointer : String) → (index : Nat) → Draft →
    Except WireError Draft
  | [], _, _, _, d => .ok d
  | value :: rest, parent, pointer, index, d => do
    let (reading, d) ← read value (itemAt pointer index) d
    readItems rest parent pointer (index + 1) (d.put parent (.item index) reading)
  termination_by structural values => values

/-- Reads members of the object with number `parent`. -/
def readMembers : List (String × Json) → (parent : NodeId) → (pointer : String) → Draft →
    Except WireError Draft
  | [], _, _, d => .ok d
  | (key, value) :: rest, parent, pointer, d => do
    let (reading, d) ← read value (memberAt pointer key) d
    readMembers rest parent pointer (d.put parent (.member (unescapeKey key)) reading)
  termination_by structural members => members

end

/-- Puts the link into a slot that waits, if there is a container for it. -/
def Patch.apply (p : Patch) (numbers : KeyMap NodeId) (c : Content) : Except WireError Content :=
  match numbers.get? p.target with
  | some id => .ok (c.refillSlot p.parent p.slot (.node id))
  | none => .error (.unresolvedReference p.target)

end Wire

namespace Content

/-- **Reads a tree with references by one walk and the patches that it leaves.** -/
def assemble (value : Json) : Except WireError Content := do
  let (reading, d) ← Wire.read value "" {}
  match reading with
  | .slot root => d.patches.foldlM (fun c p => p.apply d.numbers c) (d.content.setRoot root)
  | .reference target => .error (.unresolvedReference target)

end Content

end DebugBridge

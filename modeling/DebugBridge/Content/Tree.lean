import DebugBridge.Content.Basic

/-!
# Content/Tree — trees into graphs and back

A tree becomes a graph in which every container has a node of its own; the containers inside it get
their numbers first. The other way, a graph unfolds into the tree of all paths from its root: a
shared node is written once for every path that leads to it, and a node that can be reached from
itself leaves no tree.
-/

namespace DebugBridge

namespace Content

/-! ## From a tree -/

mutual

/-- Adds the containers of a tree to the nodes, and gives the slot that stands for it. -/
def addTree : Json → Array Node → Array Node × Item
  | .null, nodes => (nodes, .null)
  | .bool value, nodes => (nodes, .bool value)
  | .number value, nodes => (nodes, .number value)
  | .string text, nodes => (nodes, .string text)
  | .array values, nodes =>
    let (nodes, items) := addItems values [] nodes
    (nodes.push (.array items), .node nodes.size)
  | .object values, nodes =>
    let (nodes, members) := addMembers values .empty nodes
    (nodes.push (.object members), .node nodes.size)
  termination_by structural value => value

/-- Adds the items of an array, after the slots `before` in reverse. -/
def addItems : List Json → List Item → Array Node → Array Node × List Item
  | [], before, nodes => (nodes, before.reverse)
  | value :: rest, before, nodes =>
    let (nodes, item) := addTree value nodes
    addItems rest (item :: before) nodes
  termination_by structural values => values

/-- Adds the members of an object on top of the members `before`. -/
def addMembers : List (String × Json) → KeyMap Item → Array Node → Array Node × KeyMap Item
  | [], before, nodes => (nodes, before)
  | (key, value) :: rest, before, nodes =>
    let (nodes, item) := addTree value nodes
    addMembers rest (before.insert key item) nodes
  termination_by structural values => values

end

/-- Copies a tree into a graph, and gives the slot that stands for it. -/
def add (c : Content) (value : Json) : Content × Item :=
  let (nodes, item) := addTree value c.nodes
  ({ c with nodes }, item)

/-- Sets a member of the root to a tree. -/
def set (c : Content) (key : String) (value : Json) : Content :=
  let (c, item) := c.add value
  c.setItem key item

/-- **The graph of a tree.** -/
def ofJson (value : Json) : Content :=
  let (c, item) := null.add value
  c.setRoot item

/-! ## To a tree -/

/-- The tree of all paths from a slot, if none of them comes back to one of its own nodes or to one
of `above`. A path without a repetition is no longer than the number of nodes, so `room` rounds for
as many nodes as there are suffice. -/
def treeAt? (c : Content) (room : Nat) (above : List NodeId) : Item → Option Json
  | .null => some .null
  | .bool value => some (.bool value)
  | .number value => some (.number value)
  | .string text => some (.string text)
  | .node id =>
    if above.contains id then none
    else
      match c.node? id, room with
      | none, _ => some .null
      | some _, 0 => none
      | some (.array items), room + 1 =>
        (items.mapM (treeAt? c room (id :: above))).map .array
      | some (.object members), room + 1 =>
        (members.entries.mapM fun (entry : String × Item) =>
          (treeAt? c room (id :: above) entry.2).map fun value => (entry.1, value)).map .object

/-- **The tree that a graph unfolds into**; nothing when a node can be reached from itself. -/
def toJson? (c : Content) : Option Json :=
  c.treeAt? c.nodes.size [] c.root

end Content

end DebugBridge

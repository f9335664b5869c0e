import DebugBridge.Json.Basic

/-!
# Content/Basic — graphs of values

The content of a message may hold one container in many places, itself included, so it is a graph
and no tree. A `Content` keeps its containers in an array of nodes. A slot is a scalar or a link to
a node by its number, and the root is a slot. Numbers are handed out in the order of allocation and
stay valid, since no node is ever removed. A link may name a number that no node has; such a link
is read as null.
-/

namespace DebugBridge

/-- The number of a node. -/
abbrev NodeId := Nat

/-- A slot: a scalar, or a link to a node. -/
inductive Item where
  | null
  | bool (value : Bool)
  | number (value : Number)
  | string (text : String)
  | node (id : NodeId)
  deriving DecidableEq, Repr, Inhabited

/-- A container. -/
inductive Node where
  | array (items : List Item)
  | object (members : KeyMap Item)
  deriving DecidableEq, Repr, Inhabited

/-- **A rooted graph of values.** -/
structure Content where
  nodes : Array Node
  root : Item
  deriving DecidableEq, Repr

namespace Item

/-- The number of an unsigned word. -/
def ofWord (word : UInt64) : Item :=
  .number (.ofWord word)

def text? : Item → Option String
  | .string text => some text
  | _ => none

def flag? : Item → Option Bool
  | .bool value => some value
  | _ => none

def word? : Item → Option UInt64
  | .number value => value.word?
  | _ => none

def node? : Item → Option NodeId
  | .node id => some id
  | _ => none

def isNull : Item → Bool
  | .null => true
  | _ => false

/-- Equality of scalars; links are never the same scalar. -/
def sameScalar : Item → Item → Bool
  | .null, .null => true
  | .bool a, .bool b => a == b
  | .number a, .number b => a.same b
  | .string a, .string b => a == b
  | _, _ => false

end Item

namespace Node

/-- The slots of a container, an object's in the order of their keys. -/
def items : Node → List Item
  | .array items => items
  | .object members => members.values

end Node

namespace Content

/-- The content that is null. -/
def null : Content := ⟨#[], .null⟩

/-- The content that is an object without members. -/
def object : Content := ⟨#[.object .empty], .node 0⟩

instance : Inhabited Content := ⟨null⟩

def isNull (c : Content) : Bool :=
  c.root.isNull

/-- The node with a number, if there is one. -/
def node? (c : Content) (id : NodeId) : Option Node :=
  c.nodes[id]?

/-! ## Changing a graph -/

/-- Adds a node that nothing links to. -/
def alloc (c : Content) (node : Node) : Content × NodeId :=
  ({ c with nodes := c.nodes.push node }, c.nodes.size)

def allocObject (c : Content) : Content × NodeId :=
  c.alloc (.object .empty)

def allocArray (c : Content) : Content × NodeId :=
  c.alloc (.array [])

def setRoot (c : Content) (item : Item) : Content :=
  { c with root := item }

/-- Sets a member of the object with number `id`; nothing when that is no object. -/
def insert? (c : Content) (id : NodeId) (key : String) (item : Item) : Option Content :=
  match c.nodes[id]? with
  | some (.object members) =>
    some { c with nodes := c.nodes.setIfInBounds id (.object (members.insert key item)) }
  | _ => none

/-- Adds an item at the end of the array with number `id`; nothing when that is no array. -/
def push? (c : Content) (id : NodeId) (item : Item) : Option Content :=
  match c.nodes[id]? with
  | some (.array items) =>
    some { c with nodes := c.nodes.setIfInBounds id (.array (items ++ [item])) }
  | _ => none

/-- Sets a member of the root. A root that is no object is replaced by a new one. -/
def setItem (c : Content) (key : String) (item : Item) : Content :=
  match c.root with
  | .node id => (c.insert? id key item).getD (onNewRoot c)
  | _ => onNewRoot c
where
  /-- A new root object with the one member. -/
  onNewRoot (c : Content) : Content :=
    let (c, id) := c.alloc (.object (KeyMap.empty.insert key item))
    c.setRoot (.node id)

/-! ## Looking into a graph -/

/-- The member of an object. -/
def member? (c : Content) (item : Item) (key : String) : Option Item :=
  match item.node? >>= c.node? with
  | some (.object members) => members.get? key
  | _ => none

/-- The items of an array; none for anything else. -/
def elements (c : Content) (item : Item) : List Item :=
  match item.node? >>= c.node? with
  | some (.array items) => items
  | _ => []

/-- The item of an array at an index. -/
def element? (c : Content) (item : Item) (index : Nat) : Option Item :=
  (c.elements item)[index]?

/-- The member of the root. -/
def field? (c : Content) (key : String) : Option Item :=
  c.member? c.root key

end Content

end DebugBridge

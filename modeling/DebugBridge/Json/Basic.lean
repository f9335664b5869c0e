import DebugBridge.Number.Basic
import DebugBridge.KeyMap

/-!
# Json/Basic — trees of values

A `Json` tree is what a frame's text stands for. The members of an object are kept as a list;
`Ordered` says that every object in a tree has its members in ascending order of their keys, at most
one a key, which holds for every tree that is read from text or written from a graph.
-/

namespace DebugBridge

/-- A tree of values. -/
inductive Json where
  | null
  | bool (value : Bool)
  | number (value : Number)
  | string (value : String)
  | array (items : List Json)
  | object (members : List (String × Json))
  deriving Repr, Inhabited

namespace Json

/-- The object of a map of members. -/
def ofMap (members : KeyMap Json) : Json :=
  .object members.entries

/-- The number of an unsigned word. -/
def ofWord (word : UInt64) : Json :=
  .number (.ofWord word)

mutual

/-- **How many containers lie around the innermost value**, each array and each object counting
one. -/
def nesting : Json → Nat
  | .array items => deepest items + 1
  | .object members => deepestMember members + 1
  | _ => 0
  termination_by structural v => v

/-- The greatest nesting among the items of an array. -/
def deepest : List Json → Nat
  | [] => 0
  | item :: rest => max item.nesting (deepest rest)
  termination_by structural items => items

/-- The greatest nesting among the members of an object. -/
def deepestMember : List (String × Json) → Nat
  | [] => 0
  | (_, value) :: rest => max value.nesting (deepestMember rest)
  termination_by structural members => members

end

mutual

/-- Every object in the tree has its members in ascending order of their keys. -/
def Ordered : Json → Prop
  | .array items => OrderedItems items
  | .object members => (members.Pairwise fun a b => a.1 < b.1) ∧ OrderedMembers members
  | _ => True
  termination_by structural v => v

@[inherit_doc Ordered]
def OrderedItems : List Json → Prop
  | [] => True
  | item :: rest => item.Ordered ∧ OrderedItems rest
  termination_by structural items => items

@[inherit_doc Ordered]
def OrderedMembers : List (String × Json) → Prop
  | [] => True
  | (_, value) :: rest => value.Ordered ∧ OrderedMembers rest
  termination_by structural members => members

end

end Json

end DebugBridge

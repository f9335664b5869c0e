import DebugBridge.Content.Visited

/-!
# Content/Order — the order of the first visit

A walk from the root that goes into a container before it goes on to the next slot, and into the
members of an object in the order of their keys, meets every node within reach. The order in which
it meets them for the first time does not depend on their numbers. `Content.listing` gives the nodes
in that order, numbered by it.
-/

namespace DebugBridge

/-- The nodes of a content in the order of the first visit, with links by their places in that
order. A number that no node has takes a place too. -/
structure Listing where
  root : Item
  nodes : List (Option Node)
  deriving DecidableEq, Repr

namespace Content

/-- Walks through the slots in `todo`. `places` holds the places of the nodes met so far and
`before` those nodes in reverse. -/
def visit (c : Content) (places : Std.HashMap NodeId NodeId) (before : List (Option Node)) :
    List Item → Std.HashMap NodeId NodeId × List (Option Node)
  | [] => (places, before.reverse)
  | .node id :: rest =>
    if _known : places.contains id then visit c places before rest
    else
      let entered := places.insert id places.size
      match _here : c.node? id with
      | none => visit c entered (none :: before) rest
      | some node => visit c entered (some node :: before) (node.items ++ rest)
  | _ :: rest => visit c places before rest
  termination_by todo => (unvisited places c.nodes.size, todo.length)
  decreasing_by
    · exact Prod.Lex.right _ (by simp)
    · exact unvisited_insert_lex _ id _ _ (by simp)
    · exact Prod.Lex.left _ _ (unvisited_insert_lt (Array.getElem?_eq_some_iff.1 _here).1 _known _)
    · exact Prod.Lex.right _ (by simp)

/-- A slot whose link is given by the place of its node. -/
def placed (places : Std.HashMap NodeId NodeId) : Item → Item
  | .node id => .node (places.getD id 0)
  | item => item

/-- **The nodes within reach, in the order of the first visit.** -/
def listing (c : Content) : Listing :=
  let (places, nodes) := c.visit ∅ [] [c.root]
  let place : Node → Node
    | .array items => .array (items.map (placed places))
    | .object members => .object (members.map (placed places))
  ⟨placed places c.root, nodes.map (·.map place)⟩

end Content

end DebugBridge

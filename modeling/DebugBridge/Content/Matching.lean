import DebugBridge.Content.Visited

/-!
# Content/Matching — equality of graphs

Two contents are the same when the nodes that their roots reach correspond one to one, with equal
scalars and equal keys in corresponding slots. Numbering, the order of allocation and nodes out of
reach do not matter; sharing does.

The two graphs are walked side by side. A `Pairing` holds the correspondence found so far, in both
directions; a pair of links either agrees with it, contradicts it, or extends it and puts the slots
of the two nodes on the list of what is left to compare. The walk ends because a pair that adds
slots takes a node of the left graph that was unpaired.
-/

namespace DebugBridge

/-- A partial correspondence between the nodes of two graphs. -/
structure Pairing where
  toRight : Std.HashMap NodeId NodeId
  toLeft : Std.HashMap NodeId NodeId

namespace Pairing

def empty : Pairing := ⟨∅, ∅⟩

/-- Whether two nodes correspond, if either of them has a partner. -/
def agrees? (p : Pairing) (a b : NodeId) : Option Bool :=
  match p.toRight[a]?, p.toLeft[b]? with
  | some partner, _ => some (partner == b)
  | none, some _ => some false
  | none, none => none

def insert (p : Pairing) (a b : NodeId) : Pairing :=
  ⟨p.toRight.insert a b, p.toLeft.insert b a⟩

theorem not_contains_of_agrees? {p : Pairing} {a b : NodeId} (h : p.agrees? a b = none) :
    ¬ p.toRight.contains a := by
  simp only [agrees?] at h
  split at h <;> simp_all

end Pairing

namespace Node

/-- The pairs of slots of two containers of one kind, of one length and with the same keys. -/
def slotPairs? : Node → Node → Option (List (Item × Item))
  | .array a, .array b => if a.length = b.length then some (a.zip b) else none
  | .object a, .object b => if a.keys = b.keys then some (a.values.zip b.values) else none
  | _, _ => none

end Node

namespace Content

/-- Compares the pairs of slots that are left, given what corresponds so far. -/
def matchSlots (a b : Content) (p : Pairing) : List (Item × Item) → Bool
  | [] => true
  | (.node i, .node j) :: rest =>
    match _free : p.agrees? i j with
    | some agrees => agrees && matchSlots a b p rest
    | none =>
      match _here : a.node? i, b.node? j with
      | none, none => matchSlots a b (p.insert i j) rest
      | some x, some y =>
        match x.slotPairs? y with
        | some pairs => matchSlots a b (p.insert i j) (pairs ++ rest)
        | none => false
      | _, _ => false
  | (x, y) :: rest => x.sameScalar y && matchSlots a b p rest
  termination_by todo => (unvisited p.toRight a.nodes.size, todo.length)
  decreasing_by
    · exact Prod.Lex.right _ (by simp)
    · exact unvisited_insert_lex _ i j _ (by simp)
    · exact Prod.Lex.left _ _ (unvisited_insert_lt (Array.getElem?_eq_some_iff.1 _here).1
        (Pairing.not_contains_of_agrees? _free) j)
    · exact Prod.Lex.right _ (by simp)

/-- **Equality of contents**: a one-to-one correspondence of the nodes within reach. -/
def same (a b : Content) : Bool :=
  matchSlots a b .empty [(a.root, b.root)]

end Content

end DebugBridge

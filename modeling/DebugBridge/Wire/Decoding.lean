import DebugBridge.Content.Basic
import DebugBridge.Wire.Error
import DebugBridge.Wire.Pointer

/-!
# Wire/Decoding — graphs from trees with references

A tree is read back in two steps. First its containers are counted off in document order, a
container before those inside it: the place of a container in that order is the number of its node,
and its pointer is known. Then every slot is filled; a reference becomes a link to the container at
the place it names, wherever that stands.

An object that has the reference key must have no other, and a text under it. Of several faults the
first malformed marker counts, then a marker for a root, then the first reference in document order
that names no container.

A walk that fills references in when it is over is in `Wire/Patching`, and comes to the same.
-/

namespace DebugBridge

namespace Wire

/-- What an object is, going by its keys. -/
inductive ObjectKind where
  | plain
  | reference (target : String)
  | malformed
  deriving DecidableEq, Repr

/-- An object with the reference key is a reference or malformed. -/
def objectKind (members : List (String × Json)) : ObjectKind :=
  match members.lookup refKey, members with
  | none, _ => .plain
  | some (.string target), [_] => .reference target
  | some _, _ => .malformed

/-- The target of a reference marker. -/
def target? : Json → Option String
  | .object members =>
    match objectKind members with
    | .reference target => some target
    | _ => none
  | _ => none

/-! ## References and containers in document order -/

mutual

/-- The pointer of the first malformed marker. -/
def malformedAt? : Json → (pointer : String) → Option String
  | .array values, pointer => malformedItemAt? values pointer 0
  | .object members, pointer =>
    match objectKind members with
    | .plain => malformedMemberAt? members pointer
    | .reference _ => none
    | .malformed => some pointer
  | _, _ => none
  termination_by structural value => value

@[inherit_doc malformedAt?]
def malformedItemAt? : List Json → (pointer : String) → (index : Nat) → Option String
  | [], _, _ => none
  | value :: rest, pointer, index =>
    match malformedAt? value (itemAt pointer index) with
    | some found => some found
    | none => malformedItemAt? rest pointer (index + 1)
  termination_by structural values => values

@[inherit_doc malformedAt?]
def malformedMemberAt? : List (String × Json) → (pointer : String) → Option String
  | [], _ => none
  | (key, value) :: rest, pointer =>
    match malformedAt? value (memberAt pointer key) with
    | some found => some found
    | none => malformedMemberAt? rest pointer
  termination_by structural members => members

end

mutual

/-- The targets of the references, in document order. -/
def targets : Json → List String
  | .array values => targetsOfItems values
  | .object members =>
    match objectKind members with
    | .plain => targetsOfMembers members
    | .reference target => [target]
    | .malformed => []
  | _ => []
  termination_by structural value => value

@[inherit_doc targets]
def targetsOfItems : List Json → List String
  | [] => []
  | value :: rest => targets value ++ targetsOfItems rest
  termination_by structural values => values

@[inherit_doc targets]
def targetsOfMembers : List (String × Json) → List String
  | [] => []
  | (_, value) :: rest => targets value ++ targetsOfMembers rest
  termination_by structural members => members

end

mutual

/-- The pointers of the containers, in document order. Reference markers are none. -/
def pointers : Json → (pointer : String) → List String
  | .array values, pointer => pointer :: pointersOfItems values pointer 0
  | .object members, pointer =>
    match objectKind members with
    | .plain => pointer :: pointersOfMembers members pointer
    | _ => []
  | _, _ => []
  termination_by structural value => value

@[inherit_doc pointers]
def pointersOfItems : List Json → (pointer : String) → (index : Nat) → List String
  | [], _, _ => []
  | value :: rest, pointer, index =>
    pointers value (itemAt pointer index) ++ pointersOfItems rest pointer (index + 1)
  termination_by structural values => values

@[inherit_doc pointers]
def pointersOfMembers : List (String × Json) → (pointer : String) → List String
  | [], _ => []
  | (key, value) :: rest, pointer =>
    pointers value (memberAt pointer key) ++ pointersOfMembers rest pointer
  termination_by structural members => members

end

mutual

/-- How many containers a tree has. -/
def containers : Json → Nat
  | .array values => containersOfItems values + 1
  | .object members =>
    match objectKind members with
    | .plain => containersOfMembers members + 1
    | _ => 0
  | _ => 0
  termination_by structural value => value

@[inherit_doc containers]
def containersOfItems : List Json → Nat
  | [] => 0
  | value :: rest => containers value + containersOfItems rest
  termination_by structural values => values

@[inherit_doc containers]
def containersOfMembers : List (String × Json) → Nat
  | [] => 0
  | (_, value) :: rest => containers value + containersOfMembers rest
  termination_by structural members => members

end

/-! ## Nodes -/

/-- The slot of a value: its scalar, the node of the container that it refers to, or the node
`start` that it becomes itself. -/
def slot (resolve : String → NodeId) (start : NodeId) : Json → Item
  | .null => .null
  | .bool value => .bool value
  | .number value => .number value
  | .string text => .string text
  | .array _ => .node start
  | .object members =>
    match objectKind members with
    | .reference target => .node (resolve target)
    | _ => .node start

/-- The slots of an array's items, whose containers are numbered from `start` on. -/
def slots (resolve : String → NodeId) : (start : NodeId) → List Json → List Item
  | _, [] => []
  | start, value :: rest =>
    slot resolve start value :: slots resolve (start + containers value) rest

/-- Those of an object's members that are references, or those that are none, under their own
keys. -/
def memberSlots (resolve : String → NodeId) (references : Bool) :
    (start : NodeId) → List (String × Json) → List (String × Item)
  | _, [] => []
  | start, (key, value) :: rest =>
    let others := memberSlots resolve references (start + containers value) rest
    if (target? value).isSome = references then
      (unescapeKey key, slot resolve start value) :: others
    else others

/-- The members of an object. Of two written keys that stand for one key the later one counts, and a
reference counts before any other value. -/
def memberMap (resolve : String → NodeId) (start : NodeId) (members : List (String × Json)) :
    KeyMap Item :=
  .ofList (memberSlots resolve false start members ++ memberSlots resolve true start members)

mutual

/-- The nodes of a tree's containers in document order, numbered from `start` on. -/
def nodes (resolve : String → NodeId) : (start : NodeId) → Json → List Node
  | start, .array values =>
    .array (slots resolve (start + 1) values) :: nodesOfItems resolve (start + 1) values
  | start, .object members =>
    match objectKind members with
    | .plain =>
      .object (memberMap resolve (start + 1) members) ::
        nodesOfMembers resolve (start + 1) members
    | _ => []
  | _, _ => []
  termination_by structural _ value => value

@[inherit_doc nodes]
def nodesOfItems (resolve : String → NodeId) : (start : NodeId) → List Json → List Node
  | _, [] => []
  | start, value :: rest =>
    nodes resolve start value ++ nodesOfItems resolve (start + containers value) rest
  termination_by structural _ values => values

@[inherit_doc nodes]
def nodesOfMembers (resolve : String → NodeId) :
    (start : NodeId) → List (String × Json) → List Node
  | _, [] => []
  | start, (_, value) :: rest =>
    nodes resolve start value ++ nodesOfMembers resolve (start + containers value) rest
  termination_by structural _ members => members

end

end Wire

namespace Content

open Wire

/-- **The graph that a tree with references stands for.** -/
def decode (value : Json) : Except WireError Content := do
  if let some pointer := malformedAt? value "" then
    throw (.malformedReference pointer)
  if let some target := target? value then
    throw (.unresolvedReference target)
  let places := pointers value ""
  if let some target := (targets value).find? fun target => !places.contains target then
    throw (.unresolvedReference target)
  return ⟨(Wire.nodes places.idxOf 0 value).toArray, slot places.idxOf 0 value⟩

end Content

end DebugBridge

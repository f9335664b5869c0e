import Std.Data.HashMap
import DebugBridge.Content.Basic
import DebugBridge.Wire.Error
import DebugBridge.Wire.Pointer

/-!
# Wire/Encoding — graphs as trees with references

A graph is written from its root, depth first. The first visit of a node writes the container, every
later visit a reference marker, an object whose only member names the pointer of the first visit.

```
  root --a--> node --self--> node        {"a": {"self": {"$ref": "/a"}}}
```

A container or a marker may stand within `limit - 1` containers at most. The recursion is on the
room that is left, so the limit is also what makes writing a cyclic graph end.
-/

namespace DebugBridge

namespace Wire

/-- The pointers of the nodes visited so far. -/
abbrev Seen := Std.HashMap NodeId String

/-- The marker of a reference to a place. -/
def marker (target : String) : Json :=
  .object [(refKey, .string target)]

/-- Writes a slot at a place. -/
abbrev SlotWriter := String → Item → Seen → Except WireError (Json × Seen)

/-- Writes the items of an array from the one with number `index` on, after the values `before` in
reverse. -/
def encodeItems (item : SlotWriter) (pointer : String) :
    (index : Nat) → List Item → List Json → Seen → Except WireError (List Json × Seen)
  | _, [], before, seen => .ok (before.reverse, seen)
  | index, slot :: rest, before, seen => do
    let (value, seen) ← item (itemAt pointer index) slot seen
    encodeItems item pointer (index + 1) rest (value :: before) seen

/-- Writes the members of an object, after the members `before` in reverse. -/
def encodeMembers (item : SlotWriter) (pointer : String) :
    List (String × Item) → List (String × Json) → Seen →
      Except WireError (List (String × Json) × Seen)
  | [], before, seen => .ok (before.reverse, seen)
  | (key, slot) :: rest, before, seen => do
    let (value, seen) ← item (memberAt pointer (escapeKey key)) slot seen
    encodeMembers item pointer rest ((escapeKey key, value) :: before) seen

/-- Writes a slot that stands at `pointer`, with `room` of `limit` containers left. -/
def encodeItem (c : Content) (limit : Nat) : (room : Nat) → SlotWriter
  | _, _, .null, seen => .ok (.null, seen)
  | _, _, .bool value, seen => .ok (.bool value, seen)
  | _, _, .number value, seen => .ok (.number value, seen)
  | _, _, .string text, seen => .ok (.string text, seen)
  | 0, _, .node _, _ => .error (.tooDeep (limit + 1))
  | room + 1, pointer, .node id, seen =>
    match seen[id]? with
    | some target => .ok (marker target, seen)
    | none => do
      let seen := seen.insert id pointer
      match c.node? id with
      | none => .ok (.null, seen)
      | some (.array items) =>
        let (values, seen) ← encodeItems (encodeItem c limit room) pointer 0 items [] seen
        .ok (.array values, seen)
      | some (.object members) =>
        let (values, seen) ←
          encodeMembers (encodeItem c limit room) pointer members.entries [] seen
        .ok (.object values, seen)

end Wire

namespace Content

/-- The tree of a graph, with at most `limit` containers around each other. -/
def encodeWithin (limit : Nat) (c : Content) : Except WireError Json :=
  (Wire.encodeItem c limit limit "" c.root ∅).map (·.1)

/-- **The tree that a graph is written as.** -/
def encode (c : Content) : Except WireError Json :=
  c.encodeWithin Wire.maxDepth

end Content

end DebugBridge

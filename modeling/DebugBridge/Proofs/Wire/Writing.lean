import DebugBridge.Proofs.Content.Correspondence
import DebugBridge.Proofs.Wire.Document
import DebugBridge.Wire.Encoding

/-!
# Proofs/Wire/Writing — the walk of the writer, slot by slot

Arrays and objects are written by two loops that differ only in where a slot stands and in what is
put around the values. Here a container is its slots with their places (`slotPlaces`) and a shape
for the values (`written`), and both loops are one (`encodeSlots`). What is written for a slot is
then one of four things: a scalar (`encodeItem_scalar`), a marker for a node met before, null for a
number without a node, or the container of a node met for the first time (`encodeItem_node`).
-/

namespace DebugBridge

namespace Wire

/-! ## Containers by their slots -/

/-- The slots of a container with the places they are written at. -/
def slotPlaces (pointer : String) : Node → List (String × Item)
  | .array items => itemPlaces pointer 0 items
  | .object members => memberPlaces pointer (members.entries.map fun e => (escapeKey e.1, e.2))

/-- A container as it is written, from what its slots are written as. -/
def written : Node → List Json → Json
  | .array _, values => .array values
  | .object members, values => .object ((members.keys.map escapeKey).zip values)

/-- The slots at their places are the items of the node. -/
theorem map_snd_slotPlaces (pointer : String) (n : Node) :
    (slotPlaces pointer n).map (·.2) = n.items := by
  cases n with
  | array items => exact map_snd_itemPlaces pointer 0 items
  | object members => simp [slotPlaces, Node.items, KeyMap.values]

/-- A written key is never the key of a reference. -/
theorem escapeKey_ne_refKey (key : String) : escapeKey key ≠ refKey := by
  intro h
  have hkey := unescapeKey_escapeKey key
  rw [h] at hkey
  subst hkey
  exact absurd h (by decide)

/-- A key that begins with a dollar sign is escaped with another one. -/
theorem toList_escapeKey (key : String) :
    (escapeKey key).toList = if key.toList.head? = some '$' then '$' :: key.toList
      else key.toList := by
  unfold escapeKey
  split
  · next rest h => simp [h]
  · next h =>
    rw [if_neg]
    intro hhead
    obtain ⟨rest, hrest⟩ := List.head?_eq_some_iff.1 hhead
    exact h rest hrest

/-- Writing keys keeps their order. -/
theorem escapeKey_lt {a b : String} (h : a < b) : escapeKey a < escapeKey b := by
  rw [String.lt_iff] at h ⊢
  rw [toList_escapeKey, toList_escapeKey]
  cases ha : a.toList with
  | nil =>
    cases hb : b.toList with
    | nil => simp [ha, hb] at h
    | cons d m =>
      rw [if_neg (by simp)]
      split <;> simp
  | cons c l =>
    cases hb : b.toList with
    | nil => simp [ha, hb] at h
    | cons d m =>
      rw [ha, hb, List.cons_lt_cons_iff] at h
      simp only [List.head?_cons, Option.some.injEq]
      split <;> split <;> simp only [List.cons_lt_cons_iff] <;> grind

/-! ## What is inside a written container -/

/-- **A written object is never taken for a marker.** -/
theorem objectKind_written {members : KeyMap Item} (values : List Json) :
    objectKind ((members.keys.map escapeKey).zip values) = .plain := by
  have hnone : ((members.keys.map escapeKey).zip values).lookup refKey = none := by
    rw [List.lookup_eq_none_iff]
    intro e he
    obtain ⟨key, -, hkey⟩ := List.mem_map.1 (List.of_mem_zip he).1
    simpa [← hkey] using Ne.symm (escapeKey_ne_refKey key)
  simp [objectKind, hnone]

/-- The places of items are those of what they are written as. -/
theorem zip_itemPlaces (pointer : String) (index : Nat) {items : List Item} {values : List Json}
    (h : values.length = items.length) :
    ((itemPlaces pointer index items).map (·.1)).zip values = itemPlaces pointer index values := by
  induction items generalizing index values with
  | nil => simp_all [itemPlaces]
  | cons x items ih =>
    cases values with
    | nil => cases h
    | cons v values => simp_all [itemPlaces]

/-- The places of members are those of what they are written as. -/
theorem zip_memberPlaces (pointer : String) (members : List (String × Item)) (values : List Json) :
    ((memberPlaces pointer members).map (·.1)).zip values =
      memberPlaces pointer ((members.map (·.1)).zip values) := by
  induction members generalizing values with
  | nil => rfl
  | cons m members ih => cases values <;> simp_all [memberPlaces]

/-- **Inside a written container its slots' values stand at the places of the slots.** -/
theorem inside?_written (pointer : String) (n : Node) {values : List Json}
    (h : values.length = n.items.length) :
    inside? pointer (written n values) =
      some (((slotPlaces pointer n).map (·.1)).zip values) := by
  cases n with
  | array items => exact congrArg some (zip_itemPlaces pointer 0 h).symm
  | object members =>
    have hkeys : (members.entries.map fun e => (escapeKey e.1, e.2)).map (·.1) =
        members.keys.map escapeKey := by simp [KeyMap.keys]
    simp only [written, inside?, objectKind_written, slotPlaces, zip_memberPlaces, hkeys]

/-- A node is written in order, if its slots are. -/
theorem ordered_written {n : Node} {values : List Json} (hlength : values.length = n.items.length)
    (h : ∀ v ∈ values, v.Ordered) : (written n values).Ordered := by
  cases n with
  | array items => exact Json.orderedItems_iff.2 h
  | object members =>
    refine ⟨?_, Json.orderedMembers_iff.2 fun v hv => ?_⟩
    · have hkeys : (members.keys.map escapeKey).Pairwise (· < ·) :=
        List.pairwise_map.2 ((List.pairwise_map.2 members.sorted).imp escapeKey_lt)
      have hzip : (((members.keys.map escapeKey).zip values).map (·.1)).Pairwise (· < ·) := by
        rw [List.map_fst_zip (by simp_all [Node.items, KeyMap.keys, KeyMap.values])]
        exact hkeys
      exact List.pairwise_map.1 hzip
    · obtain ⟨e, he, rfl⟩ := List.mem_map.1 hv
      exact h _ (List.of_mem_zip he).2

/-! ## The walk -/

/-- Writes slots at their places, one after the other. -/
def encodeSlots (item : SlotWriter) :
    List (String × Item) → Seen → Except WireError (List Json × Seen)
  | [], seen => .ok ([], seen)
  | (place, slot) :: rest, seen => do
    let (value, seen) ← item place slot seen
    let (values, seen) ← encodeSlots item rest seen
    return (value :: values, seen)

/-- Items are written slot by slot, after those before. -/
theorem encodeItems_eq (item : SlotWriter) (pointer : String) (index : Nat) (slots : List Item)
    (before : List Json) (seen : Seen) :
    encodeItems item pointer index slots before seen =
      (encodeSlots item (itemPlaces pointer index slots) seen).map
        fun r => (before.reverse ++ r.1, r.2) := by
  induction slots generalizing index before seen with
  | nil => simp [encodeItems, encodeSlots, itemPlaces, Except.map]
  | cons slot rest ih =>
    simp only [encodeItems, encodeSlots, itemPlaces, bind, Except.bind, pure, Except.pure]
    cases item (itemAt pointer index) slot seen with
    | error fault => rfl
    | ok first =>
      simp only [ih]
      cases encodeSlots item (itemPlaces pointer (index + 1) rest) first.2 with
      | error fault => rfl
      | ok r => simp [Except.map]

/-- Members are written slot by slot, after those before. -/
theorem encodeMembers_eq (item : SlotWriter) (pointer : String) (members : List (String × Item))
    (before : List (String × Json)) (seen : Seen) :
    encodeMembers item pointer members before seen =
      (encodeSlots item (memberPlaces pointer (members.map fun e => (escapeKey e.1, e.2))) seen).map
        fun r => (before.reverse ++ ((members.map (·.1)).map escapeKey).zip r.1, r.2) := by
  induction members generalizing before seen with
  | nil => simp [encodeMembers, encodeSlots, memberPlaces, Except.map]
  | cons m rest ih =>
    obtain ⟨key, slot⟩ := m
    simp only [encodeMembers, encodeSlots, memberPlaces, List.map_cons, bind, Except.bind, pure,
      Except.pure]
    cases item (memberAt pointer (escapeKey key)) slot seen with
    | error fault => rfl
    | ok first =>
      simp only [ih, memberPlaces]
      cases encodeSlots item _ first.2 with
      | error fault => rfl
      | ok r => simp [Except.map]

/-- The value that a scalar is written as. -/
def scalarValue : Item → Json
  | .null | .node _ => .null
  | .bool value => .bool value
  | .number value => .number value
  | .string text => .string text

/-- A scalar is written as itself, and nothing is visited. -/
theorem encodeItem_scalar {x : Item} (h : x.IsScalar) (c : Content) (limit room : Nat)
    (pointer : String) (seen : Seen) :
    encodeItem c limit room pointer x seen = .ok (scalarValue x, seen) := by
  rcases x with _ | _ | _ | _ | id
  case node => exact absurd rfl (h id)
  all_goals
    rw [encodeItem]
    rfl

/-- **What writing a link comes to**, with room for one more container. -/
theorem encodeItem_node (c : Content) (limit room : Nat) (pointer : String) (id : NodeId)
    (seen : Seen) :
    encodeItem c limit (room + 1) pointer (.node id) seen =
      match seen[id]? with
      | some target => .ok (marker target, seen)
      | none =>
        match c.node? id with
        | none => .ok (.null, seen.insert id pointer)
        | some n =>
          (encodeSlots (encodeItem c limit room) (slotPlaces pointer n)
            (seen.insert id pointer)).map fun r => (written n r.1, r.2) := by
  rw [encodeItem]
  rcases seen[id]? with _ | target
  · dsimp only
    rcases c.node? id with _ | items | members
    · rfl
    · simp only [encodeItems_eq, slotPlaces]
      rcases encodeSlots _ _ _ with fault | r <;> rfl
    · simp only [encodeMembers_eq, slotPlaces]
      rcases encodeSlots _ _ _ with fault | r
      · rfl
      · simp [Except.map, bind, Except.bind, written, KeyMap.keys]
  · rfl

end Wire

end DebugBridge

import DebugBridge.Proofs.Content.Grown
import DebugBridge.Proofs.Wire.Unlimited

/-!
# Proofs/Wire/Escaping — a tree is written as itself, with its keys escaped

A graph that a tree has grown into has no node with two links to it, so the writer never meets a
node again and writes no reference marker. What it writes is the tree with one more dollar sign in
front of every key that has one (`Json.escapeKeys`):

```
  {"$ref": "/nowhere", "a": [{"$$": 1}]}      the tree
  {"$$ref": "/nowhere", "a": [{"$$$": 1}]}    as it is written
```

No object in it has the key of a reference, whatever keys the tree had, and it is read as the graph
it was written from (`Content.ofJson_preserves`).
-/

namespace DebugBridge

namespace Json

open Wire

mutual

/-- **A tree with its keys escaped**, and nothing else changed. -/
def escapeKeys : Json → Json
  | .array items => .array (escapeItems items)
  | .object members => .object (escapeMembers members)
  | v => v
  termination_by structural v => v

@[inherit_doc escapeKeys]
def escapeItems : List Json → List Json
  | [] => []
  | item :: rest => item.escapeKeys :: escapeItems rest
  termination_by structural items => items

@[inherit_doc escapeKeys]
def escapeMembers : List (String × Json) → List (String × Json)
  | [] => []
  | (key, value) :: rest => (escapeKey key, value.escapeKeys) :: escapeMembers rest
  termination_by structural members => members

end

/-- Items are escaped one by one. -/
theorem escapeItems_eq (items : List Json) : escapeItems items = items.map escapeKeys := by
  induction items with
  | nil => rfl
  | cons item rest ih => rw [escapeItems, ih, List.map_cons]

/-- Members are escaped one by one. -/
theorem escapeMembers_eq (members : List (String × Json)) :
    escapeMembers members = members.map fun m => (escapeKey m.1, m.2.escapeKeys) := by
  induction members with
  | nil => rfl
  | cons m rest ih => rw [escapeMembers, ih, List.map_cons]

/-- The children of an escaped tree are the escaped children. -/
theorem children_escapeKeys (v : Json) : v.escapeKeys.children = v.children.map escapeKeys := by
  cases v with
  | array items => exact escapeItems_eq items
  | object members => simp [escapeKeys, children, escapeMembers_eq]
  | null | bool _ | number _ | string _ => rfl

/-- A scalar has no keys to escape. -/
theorem escapeKeys_scalarValue (x : Item) : (scalarValue x).escapeKeys = scalarValue x := by
  cases x <;> rfl

/-- The writer puts the values of the slots under the escaped keys. -/
theorem escapeKeys_tree (n : Node) (values : List Json) :
    (n.tree values).escapeKeys = written n (values.map escapeKeys) := by
  cases n with
  | array items => exact congrArg array (escapeItems_eq values)
  | object members =>
    rw [Node.tree, escapeKeys, escapeMembers_eq, written, List.zip_map]
    rfl

/-- A change that leaves every item as deep leaves the deepest so. -/
theorem deepest_map {f : Json → Json} {items : List Json}
    (h : ∀ v ∈ items, (f v).nesting = v.nesting) : deepest (items.map f) = deepest items := by
  induction items with
  | nil => rfl
  | cons v rest ih =>
    obtain ⟨hv, hrest⟩ := List.forall_mem_cons.1 h
    rw [List.map_cons, deepest, deepest, hv, ih hrest]

/-- Escaping keeps the nesting. -/
theorem nesting_escapeKeys (v : Json) : v.escapeKeys.nesting = v.nesting := by
  induction v using Json.inductionOn with
  | h v ih =>
    cases v with
    | array items =>
      have hitems : deepest (items.map escapeKeys) = deepest items := deepest_map ih
      rw [escapeKeys, nesting, nesting, escapeItems_eq, hitems]
    | object members =>
      have hmembers : deepest ((members.map (·.2)).map escapeKeys) = deepest (members.map (·.2)) :=
        deepest_map ih
      have hmap : (escapeMembers members).map (·.2) = (members.map (·.2)).map escapeKeys := by
        simp [escapeMembers_eq]
      rw [escapeKeys, nesting, nesting, deepestMember_eq, deepestMember_eq, hmap, hmembers]
    | null | bool _ | number _ | string _ => rfl

/-- **No key is that of a reference** once it is escaped. -/
theorem refKey_not_mem_of_at (v : Json) (path : Path) (members : List (String × Json))
    (hat : v.escapeKeys.At path (.object members)) : refKey ∉ members.map (·.1) := by
  induction v using Json.inductionOn generalizing path members with
  | h v ih =>
    refine forall_objects (P := fun members => refKey ∉ members.map (·.1)) (fun own heq => ?_)
      (fun w hw path members hat => ?_) path members hat
    · cases v with
      | object before =>
        obtain rfl := object.inj heq
        simp only [escapeMembers_eq, List.map_map, List.mem_map, Function.comp_apply, not_exists,
          not_and]
        exact fun m _ => escapeKey_ne_refKey m.1
      | array _ | null | bool _ | number _ | string _ => cases heq
    · rw [children_escapeKeys] at hw
      obtain ⟨u, hu, rfl⟩ := List.mem_map.1 hw
      exact ih u hu path members hat

end Json

namespace Content

open Wire

variable {c : Content} {first next : Nat} {items : List Item} {values : List Json} {v : Json}

/-- **Slots that stand for trees are written as the trees with their keys escaped**, by a walk that
has met none of their nodes before. It meets no others. -/
theorem Grows.exists_writes (h : Grows c first items values next) {places : List (String × Item)}
    (hplaces : places.map (·.2) = items) {seen : Seen}
    (fresh : ∀ id : Nat, first ≤ id → id < next → seen[id]? = none) :
    ∃ seen', Writes c places seen (values.map Json.escapeKeys) seen' ∧
      ∀ id : Nat, id < first ∨ next ≤ id → seen'[id]? = seen[id]? := by
  induction h generalizing places seen with
  | nil =>
    obtain rfl := List.map_eq_nil_iff.1 hplaces
    exact ⟨seen, .nil, fun _ _ => rfl⟩
  | scalar hx _ ih =>
    obtain ⟨⟨place, x⟩, rest, rfl, rfl, hrest⟩ := List.map_eq_cons_iff.1 hplaces
    obtain ⟨seen', hwrites, hkept⟩ := ih hrest fresh
    refine ⟨seen', ?_, hkept⟩
    rw [List.map_cons, Json.escapeKeys_scalarValue]
    exact .scalar hx hwrites
  | @container first id next n items inside values here hinside hlater ihinside ih =>
    obtain ⟨⟨place, x⟩, rest, rfl, rfl, hrest⟩ := List.map_eq_cons_iff.1 hplaces
    have hfirst := hinside.le
    have hnext := hlater.le
    -- inside the container everything is new but the container itself
    have hinsideFresh (j : Nat) (hj : first ≤ j) (hj' : j < id) :
        (seen.insert id place)[j]? = none := by
      rw [getElem?_insert_of_ne (Nat.ne_of_gt hj')]
      exact fresh j hj (by omega)
    obtain ⟨seen', hwithin, hkept⟩ := ihinside (map_snd_slotPlaces place n) hinsideFresh
    have hbehind (j : Nat) (hj : j < first ∨ id + 1 ≤ j) : seen'[j]? = seen[j]? := by
      rw [hkept j (by omega), getElem?_insert_of_ne (show (id : Nat) ≠ j by omega)]
    have hlaterFresh (j : Nat) (hj : id + 1 ≤ j) (hj' : j < next) : seen'[j]? = none := by
      rw [hbehind j (.inr hj)]
      exact fresh j (by omega) hj'
    obtain ⟨seen'', hwrites, hkept'⟩ := ih hrest hlaterFresh
    refine ⟨seen'', ?_, fun j hj => ?_⟩
    · rw [List.map_cons, Json.escapeKeys_tree]
      exact .enter (fresh id hfirst (by omega)) here hwithin hwrites
    · rw [hkept' j (by omega), hbehind j (by omega)]

/-- **The graph of a tree is written as the tree with its keys escaped.** -/
theorem Grows.writtenAs (h : Grows c first [c.root] [v] next) : c.WrittenAs v.escapeKeys := by
  have hplaces : [("", c.root)].map (·.2) = [c.root] := rfl
  have fresh (id : Nat) (_ : first ≤ id) (_ : id < next) : (∅ : Seen)[id]? = none := by simp
  obtain ⟨seen', hwrites, -⟩ := h.exists_writes hplaces fresh
  exact ⟨seen', hwrites⟩

/-- **A tree survives as a graph.** The graph of a tree unfolds into the tree. It is written as the
tree with one more dollar sign in front of every key that has one, as long as the tree is within the
limit; no object in this has the key of a reference; and it is read as an equal graph. -/
theorem ofJson_preserves {v : Json} (ordered : v.Ordered) :
    (ofJson v).toJson? = some v ∧
      ((ofJson v).encode = if v.nesting ≤ Wire.maxDepth then .ok v.escapeKeys
        else .error (.tooDeep (Wire.maxDepth + 1))) ∧
      v.escapeKeys.Ordered ∧
      (∀ path members, v.escapeKeys.At path (.object members) → refKey ∉ members.map (·.1)) ∧
      ∃ d, decode v.escapeKeys = .ok d ∧ d.same (ofJson v) = true ∧ (ofJson v).same d = true := by
  have hgrows := grows_ofJson ordered
  obtain ⟨seen', hwrites⟩ := hgrows.writtenAs
  have hencode := WrittenAs.encode_eq ⟨seen', hwrites⟩ hgrows.closed
  rw [Json.nesting_escapeKeys] at hencode
  obtain ⟨order, t⟩ :=
    exists_transcript_of_writes hgrows.closed hwrites (withinReach_root (ofJson v))
  obtain ⟨d, hd, hcorr⟩ := exists_correspondence t
  exact ⟨hgrows.toJson?_eq, hencode, t.ordered _ List.mem_cons_self, Json.refKey_not_mem_of_at v, d,
    hd, same_of_correspondence hcorr, same_of_correspondence hcorr.symm⟩

/-- A tree with the key of a reference, with keys of two and three dollar signs, and with a
container that it holds twice. -/
def forgery : Json :=
  .object [("", .array []), ("$$", .array [.object [("$$$ref", .null)]]), ("$ref", .string "/$$"),
    ("~/", .array [])]

theorem ofJson_preserves_forgery : forgery.Ordered ∧ (ofJson forgery).toJson? = some forgery ∧
    (ofJson forgery).encode = .ok (.object [("", .array []),
      ("$$$", .array [.object [("$$$$ref", .null)]]), ("$$ref", .string "/$$"), ("~/", .array [])]) ∧
    ∃ d, decode forgery.escapeKeys = .ok d ∧ d.same (ofJson forgery) = true := by
  have ordered : forgery.Ordered := by
    simp only [forgery, Json.Ordered, Json.OrderedItems, Json.OrderedMembers]
    decide
  obtain ⟨htree, hencode, -, -, d, hd, hsame, -⟩ := ofJson_preserves ordered
  exact ⟨ordered, htree, hencode, d, hd, hsame⟩

end Content

end DebugBridge

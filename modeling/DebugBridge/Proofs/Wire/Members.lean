import DebugBridge.Proofs.Wire.Building
import Mathlib.Data.List.Perm.Subperm

/-!
# Proofs/Wire/Members — the members of an object that is read

A key with two dollar signs in front stands for the key with one of them, and every other key for
itself. So a key with one dollar sign in front, which the writer writes nowhere, stands for what the
same key with one more stands for:

```
  {"$$a": 1, "$a": 2}        both members are under "$a"
```

The members of an object end up in one map, in the order of the tree, and the references after all
the others; of members for one key the last in that order is there (`Wire.counted?`). No member is
lost exactly if no two keys clash in this way (`Wire.Clash`), and no other keys do
(`nodup_unescapeKey_iff`).

Whatever keys it has, a tree is read as itself with every marker replaced by a link and with members
for one key as one (`Json.Merges`).
-/

namespace DebugBridge

namespace Wire

variable {a b key : String} {members : List (String × Json)}

/-! ## Keys that stand for one key -/

theorem unescapeKey_cases (key : String) :
    (∃ rest, key = "$$" ++ rest ∧ unescapeKey key = "$" ++ rest) ∨
      (∀ rest, key ≠ "$$" ++ rest) ∧ unescapeKey key = key := by
  unfold unescapeKey
  split
  · next rest h =>
    refine .inl ⟨String.ofList rest, String.toList_injective ?_, String.toList_injective ?_⟩
    · simp [h]
    · simp
  · next h =>
    refine .inr ⟨?_, rfl⟩
    rintro rest rfl
    exact h rest.toList (by simp)

theorem double_eq (rest : String) : "$$" ++ rest = "$" ++ ("$" ++ rest) := by
  rw [← String.append_assoc]
  rfl

theorem plain_of_ne_escaped {rest : String} (h : ∀ more, "$" ++ rest ≠ "$$" ++ more) (more : String) :
    rest ≠ "$" ++ more := by
  rintro rfl
  exact h more (double_eq more).symm

theorem unescapeKey_single {rest : String} (h : ∀ more, rest ≠ "$" ++ more) :
    unescapeKey ("$" ++ rest) = "$" ++ rest := by
  obtain ⟨more, heq, -⟩ | ⟨-, hself⟩ := unescapeKey_cases ("$" ++ rest)
  · rw [double_eq] at heq
    exact absurd ((String.append_right_inj "$").1 heq) (h more)
  · exact hself

theorem unescapeKey_double (rest : String) : unescapeKey ("$$" ++ rest) = "$" ++ rest := by
  obtain ⟨more, heq, hmore⟩ | ⟨hne, -⟩ := unescapeKey_cases ("$$" ++ rest)
  · rw [hmore, (String.append_right_inj "$$").1 heq]
  · exact absurd rfl (hne rest)

/-- **Two keys that stand for one key** have one and two dollar signs in front of the same rest. -/
theorem exists_of_unescapeKey_eq (h : unescapeKey a = unescapeKey b) (hne : a ≠ b) :
    ∃ rest, (∀ more, rest ≠ "$" ++ more) ∧
      (a = "$" ++ rest ∧ b = "$$" ++ rest ∨ a = "$$" ++ rest ∧ b = "$" ++ rest) := by
  obtain ⟨r, rfl, hr⟩ | ⟨hplain, hself⟩ := unescapeKey_cases a
  · obtain ⟨r', rfl, hr'⟩ | ⟨hplain', hself'⟩ := unescapeKey_cases b
    · rw [hr, hr'] at h
      rw [(String.append_right_inj "$").1 h] at hne
      exact absurd rfl hne
    · obtain rfl : "$" ++ r = b := hr.symm.trans (h.trans hself')
      exact ⟨r, plain_of_ne_escaped hplain', .inr ⟨rfl, rfl⟩⟩
  · obtain ⟨r', rfl, hr'⟩ | ⟨-, hself'⟩ := unescapeKey_cases b
    · obtain rfl : "$" ++ r' = a := hr'.symm.trans (h.symm.trans hself)
      exact ⟨r', plain_of_ne_escaped hplain, .inl ⟨rfl, rfl⟩⟩
    · exact absurd (hself.symm.trans (h.trans hself')) hne

/-- **Whether two members clash**: one has a key with one dollar sign in front, the other the same
key with one more. -/
def Clash (members : List (String × Json)) : Prop :=
  ∃ rest, (∀ more, rest ≠ "$" ++ more) ∧ "$" ++ rest ∈ members.map (·.1) ∧
    "$$" ++ rest ∈ members.map (·.1)

/-- The keys that different members stand for are different, unless two members clash. -/
theorem nodup_unescapeKey_iff (h : (members.map (·.1)).Nodup) :
    (members.map fun m => unescapeKey m.1).Nodup ↔ ¬ Clash members := by
  have hmap : (members.map fun m => unescapeKey m.1) = (members.map (·.1)).map unescapeKey := by
    rw [List.map_map]
    rfl
  rw [hmap, List.nodup_map_iff_inj_on h]
  constructor
  · rintro hinj ⟨rest, hrest, hsingle, hdouble⟩
    have heq := hinj _ hsingle _ hdouble
      ((unescapeKey_single hrest).trans (unescapeKey_double rest).symm)
    rw [double_eq] at heq
    exact hrest rest ((String.append_right_inj "$").1 heq)
  · intro hclash a ha b hb heq
    by_contra hne
    obtain ⟨rest, hrest, ⟨rfl, rfl⟩ | ⟨rfl, rfl⟩⟩ := exists_of_unescapeKey_eq heq hne
    · exact hclash ⟨rest, hrest, ha, hb⟩
    · exact hclash ⟨rest, hrest, hb, ha⟩

/-! ## The member that counts -/

/-- The last member for a key, among the references or among the others. -/
def lastFor? (references : Bool) (members : List (String × Json)) (key : String) :
    Option (String × Json) :=
  members.reverse.find? fun m => unescapeKey m.1 = key ∧ (target? m.2).isSome = references

/-- **The member that counts for a key**: the last reference, and without one the last. -/
def counted? (members : List (String × Json)) (key : String) : Option (String × Json) :=
  (lastFor? true members key).or (lastFor? false members key)

theorem memberSlots_eq (resolve : String → NodeId) (references : Bool) (start : NodeId)
    (members : List (String × Json)) :
    memberSlots resolve references start members =
      ((members.zip (slots resolve start (members.map (·.2)))).filter
        fun q => (target? q.1.2).isSome = references).map fun q => (unescapeKey q.1.1, q.2) := by
  induction members generalizing start with
  | nil => rfl
  | cons m rest ih =>
    obtain ⟨k, value⟩ := m
    rw [memberSlots, ih, List.map_cons, slots, List.zip_cons_cons]
    split
    · next h => rw [List.filter_cons_of_pos (by simpa using h), List.map_cons]
    · next h => rw [List.filter_cons_of_neg (by simpa using h)]

theorem lookup_map {α β : Type} (f : α → String) (g : α → β) (l : List α) (key : String) :
    (l.map fun x => (f x, g x)).lookup key = (l.find? fun x => f x = key).map g := by
  induction l with
  | nil => rfl
  | cons x l ih =>
    rw [List.map_cons, KeyMap.lookup_cons_ite, ih, List.find?_cons]
    by_cases h : f x = key
    · simp [h]
    · simp [h, Ne.symm h]

/-- What is found for a key among the references, or among the others, stands for the last member
for the key. -/
theorem rel_lastFor? {S : String × Json → Item → Prop} {resolve : String → NodeId} {start : NodeId}
    (h : List.Forall₂ S members (slots resolve start (members.map (·.2)))) (references : Bool)
    (key : String) : Option.Rel S (lastFor? references members key)
      ((memberSlots resolve references start members).reverse.lookup key) := by
  obtain ⟨length, zip⟩ := List.forall₂_iff_zip.1 h
  -- both look through the members with their slots, from the last one on
  have hmembers : members.reverse =
      (members.zip (slots resolve start (members.map (·.2)))).reverse.map (·.1) := by
    rw [List.map_reverse, List.map_fst_zip (Nat.le_of_eq length)]
  have hboth (q : (String × Json) × Item) :
      decide (decide ((target? q.1.2).isSome = references) = true ∧
        decide (unescapeKey q.1.1 = key) = true) =
      decide (unescapeKey q.1.1 = key ∧ (target? q.1.2).isSome = references) := by
    simp [and_comm]
  rw [lastFor?, hmembers, List.find?_map, memberSlots_eq, ← List.map_reverse, ← List.filter_reverse,
    lookup_map, List.find?_filter]
  simp only [hboth, Function.comp_def]
  cases hfind : (members.zip (slots resolve start (members.map (·.2)))).reverse.find? fun q =>
      unescapeKey q.1.1 = key ∧ (target? q.1.2).isSome = references with
  | none => exact .none
  | some q => exact .some (zip (List.mem_reverse.1 (List.mem_of_find?_eq_some hfind)))

theorem rel_or {α β : Type} {S : α → β → Prop} {x x' : Option α} {y y' : Option β}
    (h : Option.Rel S x y) (h' : Option.Rel S x' y') : Option.Rel S (x.or x') (y.or y') := by
  cases h with
  | none => exact h'
  | some h => exact .some h

/-- **Under each key the member is found that counts for it.** -/
theorem rel_counted? {S : String × Json → Item → Prop} {resolve : String → NodeId} {start : NodeId}
    (h : List.Forall₂ S members (slots resolve start (members.map (·.2)))) (key : String) :
    Option.Rel S (counted? members key) ((memberMap resolve start members).get? key) := by
  rw [memberMap, KeyMap.get?_ofList, List.reverse_append, List.lookup_append]
  exact rel_or (rel_lastFor? h true key) (rel_lastFor? h false key)

theorem mem_of_counted? {m : String × Json} (h : counted? members key = some m) :
    m ∈ members ∧ unescapeKey m.1 = key := by
  have hlast {references : Bool} (h : lastFor? references members key = some m) :
      m ∈ members ∧ unescapeKey m.1 = key := by
    have hkey := List.find?_some h
    exact ⟨List.mem_reverse.1 (List.mem_of_find?_eq_some h), (of_decide_eq_true hkey).1⟩
  obtain h | ⟨-, h⟩ := Option.or_eq_some_iff.1 h
  · exact hlast h
  · exact hlast h

end Wire

namespace Json

open Wire

/-- **A graph is the tree `v` with every marker replaced by a link**, as in `Builds`, except that
members for one key are one member. -/
structure Merges (v : Json) (c : Content) (node : Path → NodeId) : Prop where
  root : v.Becomes node [] v c.root
  arrays : ∀ path values, v.At path (.array values) → ∃ items,
    c.node? (node path) = some (.array items) ∧
      v.BecomesNode node path (.array values) (.array items)
  objects : ∀ path members, v.At path (.object members) → (object members).IsContainer → ∃ map,
    c.node? (node path) = some (.object map) ∧ ∀ key,
      Option.Rel (fun m x => v.Becomes node (path ++ [.member m.1]) m.2 x) (counted? members key)
        (map.get? key)
  distinct : ∀ path w rest x, v.At path w → w.IsContainer → v.At rest x → x.IsContainer →
    node path = node rest → path = rest
  all : ∀ id n, c.node? id = some n → ∃ path w, v.At path w ∧ w.IsContainer ∧ node path = id

variable {v : Json} {path : Path} {offset : Nat} {members : List (String × Json)}

/-- The slots of an object, member by member. -/
theorem WellReferenced.forall₂_slots (hv : v.WellReferenced) (keys : v.DistinctKeys)
    (hat : v.At path (.object members)) (b : Block v path (.object members) offset)
    (plain : objectKind members = .plain) :
    List.Forall₂ (fun m x => v.Becomes (numberAt v) (path ++ [.member m.1]) m.2 x) members
      (slots (pointers v "").idxOf (offset + 1) (members.map (·.2))) := by
  refine List.forall₂_iff_get.2 ⟨by simp [length_slots], fun i hi hi' => ?_⟩
  have entry : (object members).entries[i]? = some (.member members[i].1, members[i].2) := by
    simp [entries, hi]
  obtain ⟨y, hy, hbecomes⟩ :=
    hv.becomes_child keys hat b (by simp only [inside?, plain]; rfl) entry
  obtain ⟨_, rfl⟩ := List.getElem?_eq_some_iff.1 hy
  exact hbecomes

end Json

namespace Content

open Wire Json

variable {v : Json} {c : Content} {node : Path → NodeId} {path : Path}
  {members : List (String × Json)} {map : KeyMap Item}

/-- A map that has for each key the member that counts for it has no more keys than the members
stand for. -/
theorem nodup_of_size_eq {S : String × Json → Item → Prop}
    (h : ∀ key, Option.Rel S (counted? members key) (map.get? key))
    (size : map.size = members.length) : (members.map fun m => unescapeKey m.1).Nodup := by
  have hsubset : map.keys ⊆ members.map fun m => unescapeKey m.1 := by
    intro key hkey
    obtain ⟨⟨k, x⟩, hmem, rfl⟩ := List.mem_map.1 hkey
    have hrel := h k
    rw [KeyMap.get?_eq_some_iff.2 hmem] at hrel
    obtain ⟨m, hm⟩ : ∃ m, counted? members k = some m := by
      generalize counted? members k = found at hrel
      cases hrel with
      | some _ => exact ⟨_, rfl⟩
    obtain ⟨hmem, heq⟩ := mem_of_counted? hm
    exact List.mem_map.2 ⟨m, hmem, heq⟩
  have hlength : (members.map fun m => unescapeKey m.1).length ≤ map.keys.length := by
    rw [List.length_map, ← size, KeyMap.size, KeyMap.keys, List.length_map]
  have hperm := (List.subperm_of_subset map.nodup_keys hsubset).perm_of_length_le hlength
  exact hperm.nodup_iff.1 map.nodup_keys

/-- **What is read is the tree with every marker replaced by a link**, whatever keys it has. -/
theorem merges_of_decode (h : decode v = .ok c) (keys : v.DistinctKeys) :
    v.Merges c (numberAt v) := by
  have hv : v.WellReferenced := exists_decode_iff.1 ⟨c, h⟩
  obtain rfl := eq_of_decode_eq_ok h
  constructor
  case root => exact hv.becomes keys (.here v) (.here v)
  case arrays =>
    intro path values hat
    obtain ⟨offset, b⟩ := exists_block hv.formed hat
    refine ⟨_, ?_, hv.becomesNode_array keys hat b⟩
    rw [node?, List.getElem?_toArray]
    exact getElem?_nodes_array b keys
  case objects =>
    intro path members hat container
    obtain ⟨offset, b⟩ := exists_block hv.formed hat
    have plain := hv.formed.objectKind_eq_plain hat container
    refine ⟨_, ?_, rel_counted? (hv.forall₂_slots keys hat b plain)⟩
    rw [node?, List.getElem?_toArray]
    exact getElem?_nodes_object b keys plain
  case distinct =>
    intro path w rest x hat container hat' _
    exact hv.eq_of_numberAt_eq keys hat container hat'
  case all =>
    intro id n hn
    rw [node?, List.getElem?_toArray] at hn
    exact hv.exists_at keys hn

/-- **What becomes of the members of an object.** In a tree that is read, in which no object has a
member twice, every object that is no marker becomes an object node of its own. Under each key it
has the member that counts for the key, with its scalar, with the node of its container or with the
node of the container that it refers to. It has as many members as the written object, and each of
these under the key that its own key stands for, exactly if no two of them clash. The nodes are
those of the tree: the root and the items of arrays lead to them as they do when no two members
clash anywhere. -/
theorem decode_object_members (h : decode v = .ok c) (keys : v.DistinctKeys) :
    ∃ node : Path → NodeId, v.Merges c node ∧ (v.Unambiguous → v.Builds c node) ∧
      ∀ path members, v.At path (.object members) → (Json.object members).IsContainer →
        ∃ map, c.node? (node path) = some (.object map) ∧
          (∀ key, Option.Rel (fun m x => v.Becomes node (path ++ [.member m.1]) m.2 x)
            (counted? members key) (map.get? key)) ∧
          ((map.size = members.length ∧ ∀ m ∈ members, ∃ x, map.get? (unescapeKey m.1) = some x ∧
            v.Becomes node (path ++ [.member m.1]) m.2 x) ↔ ¬ Clash members) := by
  have hv : v.WellReferenced := exists_decode_iff.1 ⟨c, h⟩
  have hmerges := merges_of_decode h keys
  refine ⟨numberAt v, hmerges, builds_of_decode h, fun path members hat container => ?_⟩
  obtain ⟨map, hmap, hcounted⟩ := hmerges.objects path members hat container
  refine ⟨map, hmap, hcounted, ?_⟩
  rw [← nodup_unescapeKey_iff (keys path members hat)]
  constructor
  · rintro ⟨size, -⟩
    exact nodup_of_size_eq hcounted size
  · intro nodup
    obtain ⟨offset, b⟩ := exists_block hv.formed hat
    have plain := hv.formed.objectKind_eq_plain hat container
    obtain rfl := eq_of_decode_eq_ok h
    rw [node?, List.getElem?_toArray, getElem?_nodes_object b keys plain] at hmap
    cases hmap
    cases hv.becomesNode_object keys hat b plain nodup with
    | object hkeys hslots =>
      refine ⟨?_, hslots⟩
      simpa [KeyMap.keys, KeyMap.size] using hkeys.length_eq

/-- Members whose keys have one, two and three dollar signs in front, no two of which clash. -/
def dollars : List (String × Json) :=
  [("$$$x", .bool true), ("$$ref", marker ""), ("$a", .array [])]

/-- The graph that `dollars` are read as. -/
def dollarsGraph : Content :=
  ⟨#[.object (.ofList [("$$x", .bool true), ("$a", .node 1), ("$ref", .node 0)]), .array []],
    .node 0⟩

theorem decode_object_members_dollars : decode (.object dollars) = .ok dollarsGraph ∧
    (Json.object dollars).DistinctKeys ∧ ¬ Clash dollars ∧
    ∃ node : Path → NodeId, (Json.object dollars).Merges dollarsGraph node ∧
      ∃ map, dollarsGraph.node? (node []) = some (.object map) ∧ map.size = 3 := by
  have h : decode (.object dollars) = .ok dollarsGraph := rfl
  have ordered : (Json.object dollars).Ordered :=
    ⟨by decide +kernel, trivial, ⟨List.pairwise_singleton _ _, trivial, trivial⟩, trivial, trivial⟩
  have keys := ordered.distinctKeys
  have clash : ¬ Clash dollars := (nodup_unescapeKey_iff (keys [] _ (.here _))).1 (by decide +kernel)
  obtain ⟨node, hmerges, -, hnode⟩ := decode_object_members h keys
  have container : (Json.object dollars).IsContainer :=
    .inr ⟨_, rfl, fun target => by simp [dollars, marker]⟩
  obtain ⟨map, hmap, -, hall⟩ := hnode [] dollars (.here _) container
  exact ⟨h, keys, clash, node, hmerges, map, hmap, (hall.2 clash).1⟩

/-- Two members that clash are one afterwards, with the value of the last. -/
theorem members_collapse :
    (Json.object [("$$a", .bool true), ("$a", .bool false)]).Ordered ∧
    ∃ c map, decode (.object [("$$a", .bool true), ("$a", .bool false)]) = .ok c ∧
      c.root = .node 0 ∧ c.node? 0 = some (.object map) ∧ map.size = 1 ∧
      map.get? "$a" = some (.bool false) := by
  refine ⟨?_, ⟨#[.object (.ofList [("$a", .bool false)])], .node 0⟩, .ofList [("$a", .bool false)],
    rfl, rfl, rfl, rfl, rfl⟩
  exact ⟨by decide +kernel, trivial, trivial, trivial⟩

end Content

end DebugBridge

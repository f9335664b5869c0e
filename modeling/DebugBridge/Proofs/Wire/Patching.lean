import DebugBridge.Proofs.KeyMap
import DebugBridge.Proofs.Wire.Filling

/-!
# Proofs/Wire/Patching — filling references in afterwards makes no difference

A walk that leaves null in the slots of references, and patches for them, ends in the same graph as
reading with all numbers known, or in the same error (`assemble_eq_decode`). So what is said of the
graphs that are read, and of the trees that are not, is said of those that are put together in this
way.

The walk adds to a draft what the tree has by itself (`reads`): a node for each of its containers,
under the pointer of the container, and a patch for each of its references. In an array the patches
replace the nulls, each at its own index (`refillAll_itemEntries`). In an object a null may have
been replaced before, or may have replaced something, when two written keys stand for one; but then
the patches come after all of that (`refillAll_object`).
-/

namespace DebugBridge

open Wire

namespace Wire

/-! ## Arrays -/

/-- The items of an array as its entries. -/
def itemEntries (pointer : String) : (index : Nat) → List Json → List Entry
  | _, [] => []
  | index, v :: rest =>
    ⟨.item index, itemAt pointer index, v⟩ :: itemEntries pointer (index + 1) rest

/-- The members of an object as its entries. -/
def memberEntries (pointer : String) (members : List (String × Json)) : List Entry :=
  members.map fun m => ⟨.member (unescapeKey m.1), memberAt pointer m.1, m.2⟩

/-- Items are read one after the other, as entries. -/
theorem readItems_eq (values : List Json) (parent : NodeId) (pointer : String) (index : Nat)
    (d : Draft) : readItems values parent pointer index d =
      (itemEntries pointer index values).foldlM (fun d e => e.read parent d) d := by
  induction values generalizing index d with
  | nil => rfl
  | cons v rest ih =>
    rw [readItems, itemEntries, List.foldlM_cons, Entry.read]
    cases read v (itemAt pointer index) d with
    | error fault => rfl
    | ok r => exact ih (index + 1) _

/-- So are members. -/
theorem readMembers_eq (members : List (String × Json)) (parent : NodeId) (pointer : String)
    (d : Draft) : readMembers members parent pointer d =
      (memberEntries pointer members).foldlM (fun d e => e.read parent d) d := by
  induction members generalizing d with
  | nil => rfl
  | cons m rest ih =>
    obtain ⟨key, v⟩ := m
    rw [readMembers, memberEntries, List.map_cons, List.foldlM_cons, Entry.read]
    cases read v (memberAt pointer key) d with
    | error fault => rfl
    | ok r => exact ih _

/-- The slots of an array before the patches. -/
def draftSlots : (start : NodeId) → List Json → List Item
  | _, [] => []
  | start, v :: rest => (readingOf start v).draft :: draftSlots (start + containers v) rest

/-- The walk leaves the slots of an array as far as they are known. -/
theorem fillAll_itemEntries (pointer : String) (index start : Nat) (values : List Json)
    (items : List Item) : fillAll start (itemEntries pointer index values) (.array items) =
      .array (items ++ draftSlots start values) := by
  induction values generalizing index start items with
  | nil => simp [itemEntries, fillAll, draftSlots]
  | cons v rest ih =>
    rw [itemEntries, fillAll]
    refine (ih _ _ _).trans ?_
    simp [draftSlots]

/-- **The patches make the slots of an array what they are.** -/
theorem refillAll_itemEntries (resolve : String → NodeId) (pointer : String) (start : Nat)
    (values : List Json) (items : List Item) :
    refillAll resolve (itemEntries pointer items.length values)
        (.array (items ++ draftSlots start values)) =
      .array (items ++ slots resolve start values) := by
  induction values generalizing start items with
  | nil => rfl
  | cons v rest ih =>
    have hslot : Entry.refill ⟨.item items.length, itemAt pointer items.length, v⟩ resolve
        (.array (items ++ (readingOf start v).draft :: draftSlots (start + containers v) rest)) =
        .array (items ++ slot resolve start v :: draftSlots (start + containers v) rest) := by
      rw [Entry.refill]
      cases htarget : target? v with
      | none => rw [draft_readingOf htarget resolve]
      | some target => simp [slot_of_target? htarget, Node.refill]
    have hrest := ih (start + containers v) (items ++ [slot resolve start v])
    rw [List.length_append, List.length_singleton, List.append_assoc, List.append_assoc] at hrest
    rw [itemEntries, draftSlots, refillAll, List.foldl_cons, hslot]
    exact hrest

/-- The walk through an array. -/
theorem reads_array {values : List Json} (h : ∀ w ∈ values, ∀ pointer d, Reads w pointer d)
    (pointer : String) (d : Draft) : Reads (.array values) pointer d := by
  have hentries (index : Nat) : itemPlaces pointer index values =
      (itemEntries pointer index values).map fun e => (e.place, e.value) := by
    clear h
    induction values generalizing index with
    | nil => rfl
    | cons v rest ih => exact congrArg _ (ih (index + 1))
  refine reads_of_entries (.array []) (congrArg some (hentries 0)) h ?_ fun resolve start => ?_
  · rw [read, Draft.alloc_eq_extend]
    simp only [readItems_eq]
    rfl
  · rw [nodes, fillAll_itemEntries]
    exact congrArg (· :: _) (refillAll_itemEntries resolve pointer (start + 1) values []).symm

/-! ## Objects -/

/-- The walk inserts the members in their order, with null for the references. -/
theorem fillAll_memberEntries (pointer : String) (start : Nat) (members : List (String × Json))
    (map : KeyMap Item) : fillAll start (memberEntries pointer members) (.object map) =
      .object (((members.map fun m => unescapeKey m.1).zip
        (draftSlots start (members.map (·.2)))).foldl (fun m e => m.insert e.1 e.2) map) := by
  induction members generalizing start map with
  | nil => rfl
  | cons m rest ih => exact ih _ _

/-- The patches insert the references once more, in their order. -/
theorem refillAll_memberEntries (resolve : String → NodeId) (pointer : String) (start : Nat)
    (members : List (String × Json)) (map : KeyMap Item) :
    refillAll resolve (memberEntries pointer members) (.object map) =
      .object ((memberSlots resolve true start members).foldl (fun m e => m.insert e.1 e.2)
        map) := by
  induction members generalizing start map with
  | nil => rfl
  | cons m rest ih =>
    obtain ⟨key, v⟩ := m
    rw [memberEntries, List.map_cons, refillAll, List.foldl_cons, Entry.refill, memberSlots]
    cases htarget : target? v with
    | none => exact ih _ _
    | some target =>
      simp only [Option.isSome_some, if_true, List.foldl_cons, slot_of_target? htarget]
      exact ih _ _

/-- Under a key without a reference the slots before the patches are those of the others. -/
theorem lookup_draftSlots (resolve : String → NodeId) (start : Nat) (members : List (String × Json))
    {key : String} (h : (memberSlots resolve true start members).reverse.lookup key = none) :
    ((members.map fun m => unescapeKey m.1).zip
        (draftSlots start (members.map (·.2)))).reverse.lookup key =
      (memberSlots resolve false start members).reverse.lookup key := by
  induction members generalizing start with
  | nil => rfl
  | cons m rest ih =>
    obtain ⟨k, v⟩ := m
    simp only [List.map_cons, draftSlots, List.zip_cons_cons, memberSlots] at h ⊢
    cases htarget : target? v with
    | none =>
      simp only [htarget, Option.isSome_none, Bool.false_eq_true, if_false, if_true,
        List.reverse_cons, List.lookup_append] at h ⊢
      rw [ih _ h, draft_readingOf htarget resolve]
    | some target =>
      simp only [htarget, Option.isSome_some, if_true, Bool.true_eq_false, if_false,
        List.reverse_cons, List.lookup_append, Option.or_eq_none_iff, KeyMap.lookup_cons_ite] at h ⊢
      obtain ⟨hlater, hkey⟩ := h
      rw [if_neg (by simpa using hkey), ih _ hlater]
      exact Option.or_none

/-- **The patches make the map of an object what it is**: nothing is left of the slots that were
null, and the references come after all others. -/
theorem refillAll_object (resolve : String → NodeId) (pointer : String) (start : Nat)
    (members : List (String × Json)) :
    refillAll resolve (memberEntries pointer members)
        (fillAll start (memberEntries pointer members) (.object .empty)) =
      .object (memberMap resolve start members) := by
  rw [fillAll_memberEntries, refillAll_memberEntries resolve pointer start, ← List.foldl_append]
  refine congrArg Node.object (KeyMap.ext_get? fun key => ?_)
  show (KeyMap.ofList _).get? key = (KeyMap.ofList _).get? key
  rw [KeyMap.get?_ofList, KeyMap.get?_ofList, List.reverse_append, List.reverse_append,
    List.lookup_append, List.lookup_append]
  cases h : (memberSlots resolve true start members).reverse.lookup key with
  | some x => rfl
  | none => rw [lookup_draftSlots resolve start members h]

/-- The walk through an object that is no marker. -/
theorem reads_object {members : List (String × Json)} (plain : objectKind members = .plain)
    (h : ∀ w ∈ members.map (·.2), ∀ pointer d, Reads w pointer d) (pointer : String) (d : Draft) :
    Reads (.object members) pointer d := by
  have hinside : inside? pointer (.object members) =
      some ((memberEntries pointer members).map fun e => (e.place, e.value)) := by
    rw [memberEntries, List.map_map]
    simp only [inside?, plain]
    rfl
  refine reads_of_entries (.object .empty) hinside h ?_ fun resolve start => ?_
  · simp only [read, plain, Draft.alloc_eq_extend, readMembers_eq]
    rfl
  · rw [nodes_object plain, refillAll_object]
    rfl

/-! ## The whole tree -/

/-- The walk past a value without containers. -/
theorem reads_of_containers_eq {v : Json} {pointer : String} {d : Draft}
    (hread : read v pointer d = .ok (readingOf d.content.nodes.size v, d))
    (hformed : malformedAt? v pointer = none) (hcontainers : containers v = 0)
    (htargets : (target? v).toList = targets v) : Reads v pointer d := by
  have hpointers : pointers v pointer = [] :=
    List.eq_nil_of_length_eq_zero ((length_pointers v pointer).trans hcontainers)
  have hnodes (resolve : String → NodeId) : nodes resolve d.content.nodes.size v = [] :=
    List.eq_nil_of_length_eq_zero ((length_nodes v resolve _).trans hcontainers)
  constructor
  case malformed =>
    intro place hplace
    rw [hformed] at hplace
    cases hplace
  case formed =>
    refine fun _ => ⟨[], [], ?_, hcontainers.symm, htargets, fun resolve => ?_⟩
    · rw [hpointers, Draft.extend_nil, hread]
    · rw [hnodes]
      exact .refl []

/-- **The walk through any value.** -/
theorem reads (v : Json) (pointer : String) (d : Draft) : Reads v pointer d := by
  induction v using Json.inductionOn generalizing pointer d with
  | h v ih =>
    cases hinside : inside? pointer v with
    | some inside =>
      cases v with
      | array values => exact reads_array ih pointer d
      | object members =>
        simp only [inside?] at hinside
        split at hinside
        · exact reads_object ‹_› ih pointer d
        · cases hinside
      | null | bool _ | number _ | string _ => cases hinside
    | none =>
      rcases Json.of_inside?_eq_none hinside with ⟨x, hx, rfl⟩ | ⟨target, rfl⟩ |
        ⟨members, rfl, hmalformed⟩
      · cases x <;> exact reads_of_containers_eq rfl rfl rfl rfl
      · apply reads_of_containers_eq <;>
          simp [marker, read, readingOf, malformedAt?, containers, targets, target?,
            objectKind_marker]
      · refine ⟨fun place hplace => ?_, fun hnone => ?_⟩
        · simp only [malformedAt?, hmalformed, Option.some.injEq] at hplace
          rw [read, hmalformed, hplace]
        · simp [malformedAt?, hmalformed] at hnone

/-- The numbers that the walk notes are those of the pointers in document order. -/
theorem get?_ofList_zipIdx {places : List String} (h : places.Nodup) (target : String) :
    (KeyMap.ofList places.zipIdx).get? target =
      if target ∈ places then some (places.idxOf target) else none := by
  have hkeys : (places.zipIdx.map (·.1)).Nodup := by
    rw [List.zipIdx_map_fst]
    exact h
  have hget (id : NodeId) : (KeyMap.ofList places.zipIdx).get? target = some id ↔
      places[id]? = some target :=
    (KeyMap.get?_ofList_eq_some_iff hkeys).trans List.mk_mem_zipIdx_iff_getElem?
  split
  · next hmem => exact (hget _).2 (List.getElem?_idxOf hmem)
  · next hmem =>
    refine Option.eq_none_iff_forall_ne_some.2 fun id hid => hmem ?_
    exact List.mem_of_getElem? ((hget id).1 hid)

/-- **The patches, one after the other**: the first that finds no container is an error. -/
theorem foldlM_apply {places : List String} (h : places.Nodup) (patches : List Patch)
    (c : Content) :
    patches.foldlM (fun c p => p.apply (KeyMap.ofList places.zipIdx) c) c =
      match (patches.map (·.target)).find? fun target => !places.contains target with
      | some target => .error (.unresolvedReference target)
      | none => .ok (applyAll places.idxOf patches c) := by
  induction patches generalizing c with
  | nil => rfl
  | cons p rest ih =>
    rw [List.foldlM_cons, Patch.apply, get?_ofList_zipIdx h, List.map_cons, List.find?_cons]
    by_cases hmem : p.target ∈ places
    · rw [if_pos hmem, List.contains_iff_mem.2 hmem]
      exact ih _
    · rw [if_neg hmem, List.contains_eq_mem, decide_eq_false hmem]
      rfl

end Wire

namespace Content

variable {v : Json}

/-- **Reading by a walk and the patches that it leaves is reading**, for trees that have no key
twice in an object. -/
theorem assemble_eq_decode (keys : v.DistinctKeys) : assemble v = decode v := by
  have hreads := reads v "" {}
  rw [assemble, decode]
  cases hmalformed : malformedAt? v "" with
  | some place =>
    rw [hreads.malformed place hmalformed]
    rfl
  | none =>
    obtain ⟨drafts, patches, hread, -, htargets, hfills⟩ := hreads.formed hmalformed
    rw [hread, readingOf]
    cases hroot : target? v with
    | some target => rfl
    | none =>
      rw [hroot, Option.toList_none, List.append_nil] at htargets
      have hfilled := hfills (pointers v "").idxOf #[] [] (slot (fun _ => 0) 0 v) rfl
      rw [List.append_nil, List.append_nil] at hfilled
      refine (foldlM_apply (nodup_pointers keys "").1 patches
        ⟨#[] ++ drafts.toArray, slot (fun _ => 0) 0 v⟩).trans ?_
      rw [htargets, hfilled, Array.empty_append,
        slot_of_target?_eq_none hroot _ (pointers v "").idxOf]
      cases hfind : (targets v).find? fun target => !(pointers v "").contains target with
      | some target =>
        simp only [hfind]
        rfl
      | none =>
        simp only [hfind]
        rfl

/-- A reference and a flag under one key: the flag comes later in the tree, but the patch comes
later still. -/
example : assemble (.object [("$$a", marker ""), ("$a", .bool true)]) =
    .ok ⟨#[.object (.ofList [("$a", .node 0)])], .node 0⟩ := rfl

end Content

end DebugBridge

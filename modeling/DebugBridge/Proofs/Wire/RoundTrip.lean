import DebugBridge.Proofs.Content.Correspondence
import DebugBridge.Proofs.KeyMap
import DebugBridge.Proofs.Wire.Walk
import Mathlib.Data.List.Permutation

/-!
# Proofs/Wire/RoundTrip — what is written is read as the same graph

Writer and reader meet in document order. The writer meets the nodes of a graph one after the other
and gives each the pointer of its first visit; the reader numbers the containers of the tree in the
same order. A `Transcript` says so for any part of the walk:

```
  nodes met for the first time     n₀   n₁   n₂  …      in the order of the walk
  pointers of the containers       p₀   p₁   p₂  …      in document order
  numbers given by the reader      s   s+1  s+2  …
```

Transcripts of parts make a transcript of the whole (`Transcript.append`, `Transcript.enter`), so
every walk has one, and the third line against the first is the one-to-one correspondence of the
graph that is read with the graph that was written (`decode_encode`).
-/

namespace DebugBridge

namespace Wire

/-! ## Nodes that are read back -/

/-- Numbers by an order of nodes: the reader's number `k` stands for the node in place `k`. -/
def Placed (order : List NodeId) (k id : NodeId) : Prop :=
  order[k]? = some id

/-- A reader's node stands for the node with a number. -/
def ReadsAs (c : Content) (order : List NodeId) (n : Node) (id : NodeId) : Prop :=
  ∃ m, c.node? id = some m ∧ n.Corresponds (Placed order) m

/-- References are resolved as the writer meant them: the pointer of a visited node leads to the
number that stands for it. -/
def Resolves (seen : Seen) (order : List NodeId) (resolve : String → NodeId) : Prop :=
  ∀ id target, seen[id]? = some target → Placed order (resolve target) id

theorem placed_biUnique {order : List NodeId} (h : order.Nodup) :
    Relator.BiUnique (Placed order) := by
  constructor
  · intro k l id hk hl
    obtain ⟨hk', rfl⟩ := List.getElem?_eq_some_iff.1 hk
    obtain ⟨hl', heq⟩ := List.getElem?_eq_some_iff.1 hl
    exact (h.getElem_inj_iff.1 heq.symm)
  · intro k id id' hk hk'
    exact Option.some.inj (hk.symm.trans hk')

theorem placed_of_prefix {order part : List NodeId} {start k id : Nat}
    (h : part <+: order.drop start) (hk : part[k]? = some id) : Placed order (start + k) id := by
  obtain ⟨rest, hrest⟩ := h
  have hlt : k < part.length := (List.getElem?_eq_some_iff.1 hk).1
  rw [Placed, ← List.getElem?_drop, ← hrest, List.getElem?_append_left hlt, hk]

theorem prefix_drop_of_append {order first second : List NodeId} {start : Nat}
    (h : first ++ second <+: order.drop start) :
    second <+: order.drop (start + first.length) := by
  obtain ⟨rest, hrest⟩ := h
  refine ⟨rest, ?_⟩
  rw [← List.drop_drop, ← hrest, List.append_assoc, List.drop_left]

theorem map_unescapeKey_escapeKey (keys : List String) :
    (keys.map escapeKey).map unescapeKey = keys := by
  rw [List.map_map]
  exact (List.map_congr_left fun key _ => unescapeKey_escapeKey key).trans (List.map_id _)

/-- **The members that are read from a written object** are its slots under the keys it had. -/
theorem entries_memberMap_written {members : KeyMap Item} {values : List Json}
    (h : members.keys.length = values.length) (resolve : String → NodeId) (start : NodeId) :
    (memberMap resolve start ((members.keys.map escapeKey).zip values)).entries =
      members.keys.zip (slots resolve start values) := by
  have hkeys : (members.keys.zip (slots resolve start values)).map (·.1) = members.keys :=
    List.map_fst_zip (Nat.le_of_eq (h.trans (length_slots resolve start values).symm))
  have hsorted : (members.keys.zip (slots resolve start values)).Pairwise fun a b => a.1 < b.1 := by
    have hlt : members.keys.Pairwise (· < ·) := List.pairwise_map.2 members.sorted
    rw [← hkeys] at hlt
    exact List.pairwise_map.1 hlt
  have hperm := memberSlots_perm resolve start ((members.keys.map escapeKey).zip values)
  rw [List.map_fst_zip (by simp [h]), List.map_snd_zip (by simp [h]),
    map_unescapeKey_escapeKey] at hperm
  rw [memberMap, KeyMap.ofList_eq (m := ⟨_, hsorted⟩) hperm]

/-- A container whose slots correspond is read back as itself. -/
theorem nodes_written {order : List NodeId} {n : Node} {values : List Json}
    (resolve : String → NodeId) (start : NodeId)
    (h : List.Forall₂ (Item.Corresponds (Placed order)) (slots resolve (start + 1) values)
      n.items) :
    ∃ n', nodes resolve start (written n values) =
        n' :: nodesOfItems resolve (start + 1) values ∧
      n'.Corresponds (Placed order) n := by
  have hlength : values.length = n.items.length := by
    rw [← length_slots resolve (start + 1) values, h.length_eq]
  cases n with
  | array items => exact ⟨_, rfl, .array h⟩
  | object members =>
    have hkeys : members.keys.length = values.length := by
      simp [hlength, Node.items, KeyMap.keys, KeyMap.values]
    have hentries := entries_memberMap_written hkeys resolve (start + 1)
    have hslots := hkeys.trans (length_slots resolve (start + 1) values).symm
    refine ⟨.object (memberMap resolve (start + 1) ((members.keys.map escapeKey).zip values)),
      ?_, .object ?_ ?_⟩
    · simp only [nodes, written, objectKind_written, nodesOfMembers_eq]
      rw [List.map_snd_zip (by simp [hkeys])]
    · rw [KeyMap.keys, hentries, List.map_fst_zip (Nat.le_of_eq hslots)]
    · rw [KeyMap.values, hentries, List.map_snd_zip (Nat.le_of_eq hslots.symm)]
      exact h

/-! ## Transcripts -/

/-- **What writing some slots at their places leaves behind**: the values, and the nodes met for the
first time in the order of the walk. -/
structure Transcript (c : Content) (seen : Seen) (places : List (String × Item))
    (values : List Json) (seen' : Seen) (new : List NodeId) : Prop where
  length : values.length = places.length
  fresh : ∀ id ∈ new, seen[id]? = none
  nodup : new.Nodup
  kept : ∀ id ∉ new, seen'[id]? = seen[id]?
  /-- The nodes have the pointers of the containers, in document order. -/
  pointers : new.map (fun id => seen'[id]?) =
    (((places.map (·.1)).zip values).flatMap fun p => Wire.pointers p.2 p.1).map some
  ordered : ∀ v ∈ values, v.Ordered
  markers : ∀ p ∈ (places.map (·.1)).zip values, malformedAt? p.2 p.1 = none
  targets : ∀ v ∈ values, ∀ target ∈ Wire.targets v, ∃ id : NodeId, seen'[id]? = some target
  slots : ∀ {order : List NodeId} {resolve : String → NodeId} {start : NodeId},
    new <+: order.drop start → Resolves seen' order resolve →
      List.Forall₂ (Item.Corresponds (Placed order)) (Wire.slots resolve start values)
        (places.map (·.2))
  nodes : ∀ {order : List NodeId} {resolve : String → NodeId} {start : NodeId},
    new <+: order.drop start → Resolves seen' order resolve →
      List.Forall₂ (ReadsAs c order) (nodesOfItems resolve start values) new

namespace Transcript

variable {c : Content} {seen seen' seen'' : Seen} {places more : List (String × Item)}
  {values rest : List Json} {new later : List NodeId}

theorem containers_eq (t : Transcript c seen places values seen' new) :
    containersOfItems values = new.length := by
  have h := congrArg List.length t.pointers
  rw [List.length_map, List.length_map, List.length_flatMap] at h
  rw [containersOfItems_eq, h]
  have hmap : ((places.map (·.1)).zip values).map (·.2) = values :=
    List.map_snd_zip (by simp [t.length])
  conv_lhs => rw [← hmap]
  rw [List.map_map]
  exact congrArg List.sum (List.map_congr_left fun p _ => (length_pointers p.2 p.1).symm)

/-- A node met for the first time has a pointer from then on. -/
theorem seen_of_mem (t : Transcript c seen places values seen' new) {id : NodeId} (h : id ∈ new) :
    ∃ pointer, seen'[id]? = some pointer := by
  have hmem := List.mem_map_of_mem (f := fun id => seen'[id]?) h
  rw [t.pointers] at hmem
  obtain ⟨pointer, -, hpointer⟩ := List.mem_map.1 hmem
  exact ⟨pointer, hpointer.symm⟩

/-- Pointers are never given up. -/
theorem seen_mono (t : Transcript c seen places values seen' new) {id : NodeId} {pointer : String}
    (h : seen[id]? = some pointer) : seen'[id]? = some pointer := by
  rw [t.kept id fun hmem => absurd (t.fresh id hmem) (by simp [h]), h]

/-! ### Parts of the walk -/

theorem nil (c : Content) (seen : Seen) : Transcript c seen [] [] seen [] where
  length := rfl
  fresh := by simp
  nodup := List.nodup_nil
  kept := fun _ _ => rfl
  pointers := rfl
  ordered := by simp
  markers := by simp
  targets := by simp
  slots := fun _ _ => .nil
  nodes := fun _ _ => .nil

/-- A scalar leaves no node behind. -/
theorem scalar (c : Content) (seen : Seen) (place : String) {x : Item} (h : x.IsScalar) :
    Transcript c seen [(place, x)] [scalarValue x] seen [] := by
  have hcorr (order : List NodeId) : Item.Corresponds (Placed order) x x :=
    .scalar (Item.sameScalar_self h)
  rcases x with _ | _ | _ | _ | id
  case node => exact absurd rfl (h id)
  all_goals exact
    { length := rfl
      fresh := by simp
      nodup := List.nodup_nil
      kept := fun _ _ => rfl
      pointers := rfl
      ordered := by simp [scalarValue, Json.Ordered]
      markers := by simp [scalarValue, malformedAt?]
      targets := by simp [scalarValue, Wire.targets]
      slots := fun {order} _ _ _ _ => .cons (hcorr order) .nil
      nodes := fun _ _ => .nil }

/-- A marker leaves no node behind either; it is resolved to the node that it stands for. -/
theorem again (c : Content) {seen : Seen} (place : String) {id : NodeId} {target : String}
    (h : seen[id]? = some target) :
    Transcript c seen [(place, .node id)] [marker target] seen [] where
  length := rfl
  fresh := by simp
  nodup := List.nodup_nil
  kept := fun _ _ => rfl
  pointers := by simp [marker, Wire.pointers, objectKind_marker]
  ordered := by simp [marker, Json.Ordered, Json.OrderedMembers]
  markers := by simp [marker, malformedAt?, objectKind_marker]
  targets := by
    intro v hv target' htarget
    obtain rfl := List.mem_singleton.1 hv
    simp only [marker, Wire.targets, objectKind_marker, List.mem_singleton] at htarget
    exact ⟨id, htarget ▸ h⟩
  slots := fun _ hresolve => by
    refine .cons ?_ .nil
    simp only [marker, slot, objectKind_marker]
    exact .node (hresolve id target h)
  nodes := fun _ _ => by simp [marker, nodesOfItems, Wire.nodes, objectKind_marker]

/-- **A node that is met for the first time** stands before those inside it. -/
theorem enter {id : NodeId} {n : Node} {pointer : String} (hfresh : seen[id]? = none)
    (hnode : c.node? id = some n)
    (t : Transcript c (seen.insert id pointer) (slotPlaces pointer n) values seen' new) :
    Transcript c seen [(pointer, .node id)] [written n values] seen' (id :: new) := by
  have hnew : id ∉ new := fun hmem => absurd (t.fresh id hmem) (by simp)
  have hother {j : NodeId} (hj : j ≠ id) : (seen.insert id pointer)[j]? = seen[j]? := by
    rw [Std.HashMap.getElem?_insert, if_neg (by simpa using Ne.symm hj)]
  have hlength : values.length = n.items.length := by
    rw [t.length, ← map_snd_slotPlaces pointer n, List.length_map]
  have hinside := inside?_written pointer n hlength
  have hvalues : (((slotPlaces pointer n).map (·.1)).zip values).map (·.2) = values :=
    List.map_snd_zip (by simp [t.length])
  constructor
  case length => rfl
  case fresh =>
    intro j hj
    rcases List.mem_cons.1 hj with rfl | hj
    · exact hfresh
    · have hne : j ≠ id := fun heq => hnew (heq ▸ hj)
      rw [← hother hne, t.fresh j hj]
  case nodup => exact List.nodup_cons.2 ⟨hnew, t.nodup⟩
  case kept =>
    intro j hj
    rw [List.mem_cons, not_or] at hj
    rw [t.kept j hj.2, hother hj.1]
  case pointers =>
    have hid : seen'[id]? = some pointer := by rw [t.kept id hnew]; simp
    rw [List.map_cons, t.pointers, hid]
    simp [pointers_eq (written n values) pointer, hinside]
  case ordered => simpa using ordered_written hlength t.ordered
  case markers => simpa [malformedAt?_of_inside? hinside] using t.markers
  case targets =>
    intro v hv target htarget
    obtain rfl := List.mem_singleton.1 hv
    rw [targets_of_inside? hinside, hvalues] at htarget
    obtain ⟨w, hw, htarget⟩ := List.mem_flatMap.1 htarget
    exact t.targets w hw target htarget
  all_goals
    intro order resolve start hprefix hresolve
    have hstart : Placed order start id := by
      simpa using placed_of_prefix (k := 0) hprefix rfl
    have hrest : new <+: order.drop (start + 1) :=
      prefix_drop_of_append (show [id] ++ new <+: order.drop start from hprefix)
    have hslots := t.slots hrest hresolve
    rw [map_snd_slotPlaces] at hslots
    obtain ⟨n', hnodes, hn'⟩ := nodes_written resolve start hslots
  case slots =>
    refine .cons ?_ .nil
    have hslot : slot resolve start (written n values) = .node start := by
      rcases n with items | members
      · rfl
      · simp [written, slot, objectKind_written]
    exact hslot ▸ .node hstart
  case nodes =>
    simp only [nodesOfItems, List.append_nil, hnodes]
    exact .cons ⟨n, hnode, hn'⟩ (t.nodes hrest hresolve)

/-- **Two parts of the walk, one after the other.** -/
theorem append (t : Transcript c seen places values seen' new)
    (t' : Transcript c seen' more rest seen'' later) :
    Transcript c seen (places ++ more) (values ++ rest) seen'' (new ++ later) := by
  have hdisjoint {id : NodeId} (h : id ∈ new) : id ∉ later := fun h' => by
    obtain ⟨pointer, hpointer⟩ := t.seen_of_mem h
    exact absurd (t'.fresh id h') (by simp [hpointer])
  have hzip : ((places ++ more).map (·.1)).zip (values ++ rest) =
      (places.map (·.1)).zip values ++ (more.map (·.1)).zip rest := by
    rw [List.map_append, List.zip_append (by simp [t.length])]
  constructor
  case length => simp [t.length, t'.length]
  case fresh =>
    intro id h
    rcases List.mem_append.1 h with h | h
    · exact t.fresh id h
    · rw [← t.kept id fun hnew => hdisjoint hnew h, t'.fresh id h]
  case nodup =>
    refine List.nodup_append.2 ⟨t.nodup, t'.nodup, fun a ha b hb heq => ?_⟩
    exact hdisjoint ha (heq ▸ hb)
  case kept =>
    intro id h
    rw [List.mem_append, not_or] at h
    rw [t'.kept id h.2, t.kept id h.1]
  case pointers =>
    have hnew : new.map (fun id => seen''[id]?) = new.map fun id => seen'[id]? :=
      List.map_congr_left fun id h => t'.kept id (hdisjoint h)
    rw [hzip, List.flatMap_append, List.map_append, List.map_append, hnew, t.pointers, t'.pointers]
  case ordered =>
    intro v hv
    rcases List.mem_append.1 hv with hv | hv
    · exact t.ordered v hv
    · exact t'.ordered v hv
  case markers =>
    intro p hp
    rw [hzip] at hp
    rcases List.mem_append.1 hp with hp | hp
    · exact t.markers p hp
    · exact t'.markers p hp
  case targets =>
    intro v hv target htarget
    rcases List.mem_append.1 hv with hv | hv
    · obtain ⟨id, hid⟩ := t.targets v hv target htarget
      exact ⟨id, t'.seen_mono hid⟩
    · exact t'.targets v hv target htarget
  all_goals
    intro order resolve start hprefix hresolve
    have hresolve' : Resolves seen' order resolve :=
      fun id target h => hresolve id target (t'.seen_mono h)
    have hfirst : new <+: order.drop start := (List.prefix_append _ _).trans hprefix
    have hsecond : later <+: order.drop (start + new.length) := prefix_drop_of_append hprefix
  case slots =>
    rw [slots_append, t.containers_eq, List.map_append]
    exact List.rel_append (t.slots hfirst hresolve') (t'.slots hsecond hresolve)
  case nodes =>
    rw [nodesOfItems_append, t.containers_eq]
    exact List.rel_append (t.nodes hfirst hresolve') (t'.nodes hsecond hresolve)

end Transcript

/-! ## The walk has a transcript -/

/-- Slots are within reach of a graph. -/
def WithinReach (c : Content) (slots : List Item) : Prop :=
  ∀ id, .node id ∈ slots → c.Reaches id

theorem withinReach_root (c : Content) : WithinReach c [c.root] :=
  fun _ hid => .root (List.mem_singleton.1 hid).symm

theorem WithinReach.tail {c : Content} {x : Item} {slots : List Item}
    (h : WithinReach c (x :: slots)) : WithinReach c slots :=
  fun id hid => h id (List.mem_cons_of_mem x hid)

theorem WithinReach.inside {c : Content} {slots : List Item} {id : NodeId} {n : Node}
    (h : WithinReach c (.node id :: slots)) (here : c.node? id = some n) (place : String) :
    WithinReach c ((slotPlaces place n).map (·.2)) :=
  fun _ hj => .step (h id List.mem_cons_self) here (map_snd_slotPlaces place n ▸ hj)

/-- **Every walk over a closed graph leaves a transcript**, slot by slot. -/
theorem exists_transcript_of_writes {c : Content} (closed : c.Closed)
    {places : List (String × Item)} {seen seen' : Seen} {values : List Json}
    (h : Writes c places seen values seen') (hreach : WithinReach c (places.map (·.2))) :
    ∃ new, Transcript c seen places values seen' new := by
  induction h with
  | @nil seen => exact ⟨[], .nil c seen⟩
  | @scalar place x _ seen _ _ hx _ ih =>
    obtain ⟨new, t⟩ := ih hreach.tail
    exact ⟨[] ++ new, (Transcript.scalar c seen place hx).append t⟩
  | @again place _ _ _ _ _ _ known _ ih =>
    obtain ⟨new, t⟩ := ih hreach.tail
    exact ⟨[] ++ new, (Transcript.again c place known).append t⟩
  | missing _ none _ _ =>
    have hsome := closed _ (hreach _ List.mem_cons_self)
    rw [none] at hsome
    cases hsome
  | @enter place id n _ _ _ _ _ _ new here _ _ ihinside ih =>
    obtain ⟨inside, t⟩ := ihinside (hreach.inside here place)
    obtain ⟨later, t'⟩ := ih hreach.tail
    exact ⟨(id :: inside) ++ later, (t.enter new here).append t'⟩

/-- Every slot that is written leaves a transcript. -/
theorem exists_transcript_of_encodeItem {c : Content} (closed : c.Closed) (limit room : Nat)
    (place : String) (x : Item) (seen : Seen) (v : Json) (seen' : Seen)
    (hreach : WithinReach c [x])
    (h : encodeItem c limit room place x seen = .ok (v, seen')) :
    ∃ new, Transcript c seen [(place, x)] [v] seen' new :=
  exists_transcript_of_writes closed (writes_of_encodeItem h) hreach

/-! ## The graph that is read -/

variable {c : Content} {place : String} {x : Item} {v : Json} {seen' : Seen} {new : List NodeId}

/-- In a whole walk, every pointer that a node has is the one at its place. -/
theorem placed_of_seen (t : Transcript c ∅ [(place, x)] [v] seen' new) {id : NodeId}
    {target : String} (h : seen'[id]? = some target) :
    ∃ k, Placed new k id ∧ (Wire.pointers v place)[k]? = some target := by
  have hmem : id ∈ new := by
    by_contra hnew
    rw [t.kept id hnew] at h
    simp at h
  obtain ⟨k, hk⟩ := List.mem_iff_getElem?.1 hmem
  have hpointer := congrArg (·[k]?) t.pointers
  simp only [List.getElem?_map, hk, Option.map_some, h, List.map_cons, List.map_nil,
    List.zip_cons_cons, List.zip_nil_left, List.flatMap_singleton] at hpointer
  obtain ⟨pointer, hpointer, heq⟩ := Option.map_eq_some_iff.1 hpointer.symm
  exact ⟨k, hk, hpointer.trans heq⟩

theorem resolves_idxOf (t : Transcript c ∅ [(place, x)] [v] seen' new) :
    Resolves seen' new (Wire.pointers v place).idxOf := by
  intro id target h
  obtain ⟨k, hk, hpointer⟩ := placed_of_seen t h
  have hidx := idxOf_pointers (t.ordered v List.mem_cons_self).distinctKeys hpointer
  exact (congrArg (Placed new · id) hidx).mpr hk

theorem target_mem_pointers (t : Transcript c ∅ [(place, x)] [v] seen' new) {target : String}
    (h : target ∈ targets v) : target ∈ Wire.pointers v place := by
  obtain ⟨id, hid⟩ := t.targets v List.mem_cons_self target h
  obtain ⟨k, -, hpointer⟩ := placed_of_seen t hid
  exact List.mem_of_getElem? hpointer

/-- **What a whole walk wrote is read as a graph that corresponds to the written one.** -/
theorem exists_correspondence (t : Transcript c ∅ [("", c.root)] [v] seen' new) :
    ∃ d, Content.decode v = .ok d ∧ d.Correspondence c (Placed new) := by
  have hroot : target? v = none := by
    by_contra hmarker
    obtain ⟨target, htarget⟩ := Option.ne_none_iff_exists'.1 hmarker
    obtain ⟨htargets, hpointers⟩ := targets_of_target? htarget ""
    have hmem := target_mem_pointers t (htargets ▸ List.mem_singleton.2 rfl)
    rw [hpointers] at hmem
    cases hmem
  have hmarkers : malformedAt? v "" = none := t.markers ("", v) List.mem_cons_self
  refine ⟨_, Content.decode_eq_ok hmarkers hroot fun _ => target_mem_pointers t, ?_⟩
  have hprefix : new <+: new.drop 0 := List.prefix_rfl
  have hslots := t.slots hprefix (resolves_idxOf t)
  have hnodes := t.nodes hprefix (resolves_idxOf t)
  simp only [slots, nodesOfItems, List.append_nil, List.map_cons, List.map_nil,
    List.forall₂_cons, List.forall₂_nil_right_iff, and_true] at hslots hnodes
  refine ⟨hslots, placed_biUnique t.nodup, fun {k id} hk => ?_⟩
  obtain ⟨hlt, hget⟩ := List.getElem?_eq_some_iff.1 hk
  have hlt' : k < (Wire.nodes (Wire.pointers v "").idxOf 0 v).length := hnodes.length_eq ▸ hlt
  obtain ⟨m, hm, hcorr⟩ := hnodes.get hlt' hlt
  simp only [List.get_eq_getElem, hget] at hm hcorr
  simp only [Content.node?, List.getElem?_toArray, List.getElem?_eq_getElem hlt']
  rw [show c.nodes[id]? = some m from hm]
  exact .some hcorr

end Wire

namespace Content

/-- A closed graph is written as an ordered tree, and read as a graph that corresponds to it. -/
theorem ordered_and_exists_correspondence {c : Content} (closed : c.Closed) {v : Json}
    (h : c.encode = .ok v) : v.Ordered ∧
      ∃ d order, decode v = .ok d ∧ d.Correspondence c (Wire.Placed order) := by
  obtain ⟨_, hwrites⟩ := writtenAs_of_encode h
  obtain ⟨order, t⟩ := Wire.exists_transcript_of_writes closed hwrites (Wire.withinReach_root c)
  obtain ⟨d, hd, hcorr⟩ := Wire.exists_correspondence t
  exact ⟨t.ordered v List.mem_cons_self, d, order, hd, hcorr⟩

/-- **What is written is read as the same graph**: with the same sharing, and with nodes apart that
were apart. -/
theorem decode_encode {c : Content} (closed : c.Closed) {v : Json} (h : c.encode = .ok v) :
    ∃ d, decode v = .ok d ∧ d.same c = true ∧ c.same d = true := by
  obtain ⟨⟨v', seen'⟩, hwalk, rfl⟩ :
      ∃ r, Wire.encodeItem c Wire.maxDepth Wire.maxDepth "" c.root ∅ = .ok r ∧ r.1 = v := by
    unfold encode encodeWithin Except.map at h
    split at h
    · cases h
    · next r hr => exact ⟨r, hr, by simpa using h⟩
  have hreach : Wire.WithinReach c [c.root] := fun id hid => .root (List.mem_singleton.1 hid).symm
  obtain ⟨new, t⟩ := Wire.exists_transcript_of_encodeItem closed _ _ _ _ _ _ _ hreach hwalk
  obtain ⟨d, hd, hcorr⟩ := Wire.exists_correspondence t
  exact ⟨d, hd, same_of_correspondence hcorr, same_of_correspondence hcorr.symm⟩

/-- A graph that holds itself and shares a node that holds itself, under keys that have to be
escaped. -/
def knot : Content :=
  ⟨#[.object (.ofList [("$ref", .node 0), ("a/~", .node 1), ("b", .node 1)]),
    .array [.node 1, .bool true]], .node 0⟩

/-- The tree that `knot` is written as. -/
def knotTree : Json :=
  .object [("$$ref", Wire.marker ""), ("a/~", .array [Wire.marker "/a~1~0", .bool true]),
    ("b", Wire.marker "/a~1~0")]

theorem decode_encode_knot : knot.Closed ∧ knot.encode = .ok knotTree ∧
    ∃ d, decode knotTree = .ok d ∧ d.same knot = true ∧ knot.same d = true := by
  have closed : knot.Closed := closed_of_links (by decide) (by decide)
  have h : knot.encode = .ok knotTree := by cbv
  exact ⟨closed, h, decode_encode closed h⟩

end Content

end DebugBridge

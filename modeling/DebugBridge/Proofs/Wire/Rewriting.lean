import DebugBridge.Proofs.Content.Cycles
import DebugBridge.Proofs.Wire.Backward
import DebugBridge.Proofs.Wire.RoundTrip
import DebugBridge.Proofs.Wire.Unlimited

/-!
# Proofs/Wire/Rewriting — what is read, written again

Both directions have one limit, but each measures the tree at hand. A reference counts as one
container where it stands, and the writer writes the whole container that it names in its place if
it comes there first:

```
  [[…[{"$ref": "/1"}]…], [[]]]        read
  [[…[   [[]]    ]…], {"$ref": "/0/…/0"}]        written again
```

So a tree within the limit may be read as a graph whose tree is not (`Content.encode_detour`). No
link of what is read dangles (`Content.intact_of_decode`), so otherwise it is written, and read
again as the same graph; and nothing gets deeper when all references point back
(`Content.encode_decoded`).
-/

namespace DebugBridge

namespace Wire

variable {v : Json} {resolve : String → NodeId} {size start id : Nat} {values : List Json}
  {n : Node}

/-! ## No link of what is read dangles -/

/-- A slot links to a node of the graph if all references resolve to some. -/
theorem slot_lt (formed : v.Formed) (targets : ∀ target ∈ targets v, resolve target < size)
    (room : start + containers v ≤ size) (h : slot resolve start v = .node id) : id < size := by
  cases hinside : inside? "" v with
  | some inside =>
    rw [slot_of_inside? hinside] at h
    obtain rfl := Item.node.inj h
    rw [containers_of_inside? hinside] at room
    omega
  | none =>
    obtain ⟨x, hx, rfl⟩ | ⟨target, rfl⟩ := formed.of_inside?_eq_none (.here v) hinside
    · rw [slot_scalarValue hx] at h
      exact absurd h (hx id)
    · rw [slot_marker] at h
      obtain rfl := Item.node.inj h
      refine targets target ?_
      rw [(targets_of_target? (target?_eq_some_iff.2 rfl) "").1]
      exact List.mem_singleton_self target

/-- The slots of values link to nodes of the graph if all references resolve to some. -/
theorem slots_lt (formed : ∀ w ∈ values, w.Formed)
    (targets : ∀ w ∈ values, ∀ target ∈ targets w, resolve target < size)
    (room : start + containersOfItems values ≤ size) (h : .node id ∈ slots resolve start values) :
    id < size := by
  induction values generalizing start with
  | nil => cases h
  | cons v rest ih =>
    rw [containersOfItems] at room
    obtain h | h := List.mem_cons.1 h
    · exact slot_lt (formed v List.mem_cons_self) (targets v List.mem_cons_self) (by omega) h.symm
    · exact ih (fun w hw => formed w (List.mem_cons_of_mem v hw))
        (fun w hw => targets w (List.mem_cons_of_mem v hw)) (by omega) h

/-- A node that values are made into is one of the nodes of one of them. -/
theorem exists_of_mem_nodesOfItems (h : n ∈ nodesOfItems resolve start values) :
    ∃ w ∈ values, ∃ first : Nat, first + containers w ≤ start + containersOfItems values ∧
      n ∈ nodes resolve first w := by
  induction values generalizing start with
  | nil => cases h
  | cons v rest ih =>
    rw [containersOfItems]
    obtain h | h := List.mem_append.1 h
    · exact ⟨v, List.mem_cons_self, start, by omega, h⟩
    · obtain ⟨w, hw, first, hle, hn⟩ := ih h
      exact ⟨w, List.mem_cons_of_mem v hw, first, by omega, hn⟩

/-- The nodes of a tree link to nodes of the graph if all references resolve to some. -/
theorem nodes_lt (formed : v.Formed) (targets : ∀ target ∈ targets v, resolve target < size)
    (room : start + containers v ≤ size) (hn : n ∈ nodes resolve start v)
    (h : .node id ∈ n.items) : id < size := by
  induction v using Json.inductionOn generalizing start with
  | h v ih =>
    cases hinside : inside? "" v with
    | some inside =>
      obtain ⟨own, hsub, hnodes⟩ := exists_nodes_eq hinside resolve start
      have hchildren := map_snd_of_inside? hinside
      have hroom : start + 1 + containersOfItems v.children ≤ size := by
        rw [containers_of_inside? hinside] at room
        omega
      have hformed {w : Json} (hw : w ∈ v.children) : w.Formed := by
        obtain ⟨s, entry⟩ := Json.exists_entry_of_mem_children hw
        exact formed.entry entry
      have htargets {w : Json} (hw : w ∈ v.children) :
          ∀ target ∈ Wire.targets w, resolve target < size := fun target htarget => by
        refine targets target ?_
        rw [targets_of_inside? hinside, hchildren]
        exact List.mem_flatMap_of_mem hw htarget
      rw [hnodes] at hn
      obtain rfl | hn := List.mem_cons.1 hn
      · exact slots_lt (fun _ => hformed) (fun _ => htargets) hroom (hsub h)
      · obtain ⟨w, hw, first, hle, hn⟩ := exists_of_mem_nodesOfItems hn
        exact ih w hw (hformed hw) (htargets hw) (Nat.le_trans hle hroom) hn
    | none =>
      have hlength : (nodes resolve start v).length = 0 := by
        rw [length_nodes, containers_eq v "", hinside]
      rw [List.eq_nil_of_length_eq_zero hlength] at hn
      cases hn

end Wire

namespace Content

open Wire Json

variable {v w : Json} {c : Content}

/-- **No link of what is read dangles**, whatever the tree, within reach or not. -/
theorem intact_of_decode (h : decode v = .ok c) : c.Intact := by
  have hv : v.WellReferenced := exists_decode_iff.1 ⟨c, h⟩
  obtain rfl := eq_of_decode_eq_ok h
  have targets : ∀ target ∈ targets v, (pointers v "").idxOf target < containers v := by
    intro target htarget
    obtain ⟨path, hat⟩ := (mem_targets_iff hv.formed).1 htarget
    have hmem := (mem_pointers_iff hv.formed).2 (hv.located path target hat)
    exact length_pointers v "" ▸ List.idxOf_lt_length_of_mem hmem
  have room : 0 + containers v ≤ containers v := Nat.le_of_eq (Nat.zero_add _)
  have hsize : (Wire.nodes (pointers v "").idxOf 0 v).toArray.size = containers v :=
    length_nodes v _ 0
  constructor
  case root =>
    intro id hid
    rw [isSome_node?_iff, hsize]
    exact slot_lt hv.formed targets room hid
  case links =>
    rintro i j ⟨n, hn, slot⟩
    rw [isSome_node?_iff, hsize]
    rw [node?, List.getElem?_toArray] at hn
    exact nodes_lt hv.formed targets room (List.mem_of_getElem? hn) slot

/-- **A graph that was read has no dangling links.** -/
theorem closed_of_decode (h : decode v = .ok c) : c.Closed :=
  (intact_of_decode h).closed

/-- **What is read can be written again, as far as the limit goes.** The graph that a tree is read
as has one tree that the writer comes to without a limit. It is written as this tree if the tree is
within the limit, and otherwise it is too deep. If the tree that was read is within the limit, no
two of its members stand for one key and all its references point back, then it is written, and no
deeper than it was read. And whatever is written is read again as an equal graph. -/
theorem encode_decoded (h : decode v = .ok c) :
    (∃ tree, (∀ w, c.WrittenAs w ↔ w = tree) ∧
      c.encode = if tree.nesting ≤ Wire.maxDepth then .ok tree
        else .error (.tooDeep (Wire.maxDepth + 1))) ∧
    (v.nesting ≤ Wire.maxDepth → v.Unambiguous → v.Backward →
      ∃ w, c.encode = .ok w ∧ w.nesting ≤ v.nesting) ∧
    ∀ w, c.encode = .ok w → ∃ d, decode w = .ok d ∧ c.same d = true := by
  have closed := closed_of_decode h
  obtain ⟨tree, hwritten⟩ := exists_writtenAs c
  refine ⟨⟨tree, fun w => ⟨fun hw => hw.unique hwritten closed, fun heq => heq ▸ hwritten⟩,
    hwritten.encode_eq closed⟩, fun hdepth keys backward => ?_, fun w hw => ?_⟩
  · have formed : v.Formed := (exists_decode_iff.1 ⟨c, h⟩).formed
    have hle : tree.nesting ≤ v.nesting :=
      (builds_of_decode h keys).nesting_le keys formed backward hwritten
    refine ⟨tree, ?_, hle⟩
    rw [hwritten.encode_eq closed, if_pos (Nat.le_trans hle hdepth)]
  · obtain ⟨-, d, _, hd, hcorr⟩ := ordered_and_exists_correspondence closed hw
    exact ⟨d, hd, same_of_correspondence hcorr.symm⟩

/-- A tree with references to the container around them and to one before. -/
def loop : Json :=
  .array [.array [marker ""], marker "/0"]

/-- The loop has no key twice. -/
theorem unambiguous_loop : loop.Unambiguous := by
  have hmarker (target : String) : (Json.array [marker target]).Unambiguous :=
    .array (by simp [Json.Unambiguous.marker])
  exact .array (by simp [hmarker, Json.Unambiguous.marker])

/-- The only marker in a marker is itself. -/
theorem eq_of_at_marker {path : Path} {there target : String}
    (h : (marker there).At path (marker target)) : path = [] ∧ target = there := by
  generalize hx : marker target = x at h
  cases h with
  | here => exact ⟨rfl, by simpa [marker] using hx⟩
  | inside entry later =>
    obtain ⟨-, rfl⟩ := eq_of_entry_marker entry
    obtain ⟨-, rfl⟩ := later.eq_of_entries_eq_nil rfl
    cases hx

/-- The references of the loop go back. -/
theorem backward_loop : loop.Backward := by
  have hfirst : loop.At [.item 0] (.array [marker ""]) := .inside (by simp [loop, entries]) (.here _)
  refine backward_of_markers unambiguous_loop.distinctKeys fun path target hat => ?_
  generalize hx : marker target = x at hat
  cases hat with
  | here => cases hx
  | inside entry later =>
    subst hx
    obtain ⟨rfl, rfl⟩ | ⟨rfl, rfl⟩ := (by simpa [loop, entries] using entry)
    · generalize hx : marker target = x at later
      cases later with
      | here => cases hx
      | inside entry later =>
        subst hx
        obtain ⟨rfl, rfl⟩ := (by simpa [entries] using entry)
        obtain ⟨rfl, rfl⟩ := eq_of_at_marker later
        exact ⟨[], loop, .here loop, rfl, .nil⟩
    · obtain ⟨rfl, rfl⟩ := eq_of_at_marker later
      exact ⟨[.item 0], _, hfirst, rfl, .rel (.item Nat.zero_lt_one)⟩

/-- The graph that `loop` is read as. -/
def loopGraph : Content :=
  ⟨#[.array [.node 1, .node 1], .array [.node 0]], .node 0⟩

theorem encode_decoded_loop : decode loop = .ok loopGraph ∧ loop.nesting ≤ Wire.maxDepth ∧
    loop.Unambiguous ∧ loop.Backward ∧
    ∃ w, loopGraph.encode = .ok w ∧ w.nesting ≤ loop.nesting ∧
      ∃ d, decode w = .ok d ∧ loopGraph.same d = true := by
  have h : decode loop = .ok loopGraph := rfl
  have hdepth : loop.nesting ≤ Wire.maxDepth := by decide
  obtain ⟨-, hback, hagain⟩ := encode_decoded h
  obtain ⟨w, hw, hle⟩ := hback hdepth unambiguous_loop backward_loop
  exact ⟨h, hdepth, unambiguous_loop, backward_loop, w, hw, hle, hagain w hw⟩

/-! ## References that point forward -/

/-- Arrays one in the other, around a value. -/
def arrays : (count : Nat) → Json → Json
  | 0, v => v
  | count + 1, v => .array [arrays count v]

/-- An array in an array, after a reference to it inside of arrays. -/
def detour (count : Nat) : Json :=
  .array [arrays count (marker "/1"), .array [.array []]]

/-- The graph that `detour` is read as: the chain of arrays goes on with the two others. -/
def detourGraph (count : Nat) : Content where
  nodes := (Node.array [.node 1, .node (count + 1)] ::
    ((List.range (count + 1)).map fun k => Node.array [.node (k + 2)]) ++ [Node.array []]).toArray
  root := .node 0

/-- Arrays around a tree nest it deeper by their number. -/
theorem nesting_arrays (count : Nat) (v : Json) : (arrays count v).nesting = v.nesting + count := by
  induction count with
  | zero => rfl
  | succ count ih => simp [arrays, Json.nesting, Json.deepest, ih, Nat.add_assoc]

/-- Arrays around a tree add no keys. -/
theorem unambiguous_arrays (h : v.Unambiguous) (count : Nat) : (arrays count v).Unambiguous := by
  induction count with
  | zero => exact h
  | succ count ih => exact .array (by simpa [arrays] using ih)

/-- The detour has no key twice. -/
theorem unambiguous_detour (count : Nat) : (detour count).Unambiguous := by
  have hlast : (Json.array []).Unambiguous := .array (by simp)
  have hinner : (Json.array [.array []]).Unambiguous := .array (by simp [hlast])
  exact .array (by simp [hinner, unambiguous_arrays (Json.Unambiguous.marker "/1")])

variable {resolve : String → Nat} {target : String}

/-- Arrays around a reference hold nothing malformed. -/
theorem malformedAt?_arrays (count : Nat) (pointer target : String) :
    malformedAt? (arrays count (marker target)) pointer = none := by
  induction count generalizing pointer with
  | zero => simp [arrays, marker, malformedAt?, objectKind_marker]
  | succ count ih => simp [arrays, malformedAt?, malformedItemAt?, ih]

/-- Arrays around a reference hold that reference alone. -/
theorem targets_arrays (count : Nat) (target : String) :
    targets (arrays count (marker target)) = [target] := by
  induction count with
  | zero => exact (targets_of_target? (target?_eq_some_iff.2 rfl) "").1
  | succ count ih => simp [arrays, targets, targetsOfItems, ih]

/-- Arrays around a reference are as many containers. -/
theorem containers_arrays (count : Nat) (target : String) :
    containers (arrays count (marker target)) = count := by
  induction count with
  | zero => simp [arrays, containers_eq _ "", Json.inside?_marker]
  | succ count ih => simp [arrays, containers, containersOfItems, ih]

/-- The slot of arrays around a reference links to the first of them. -/
theorem slot_arrays (count start : Nat) (h : resolve target = start + count) :
    slot resolve start (arrays count (marker target)) = .node start := by
  cases count with
  | zero => rw [arrays, slot_marker, h, Nat.add_zero]
  | succ count => rfl

/-- Arrays around a reference are a chain of nodes, each of which links to the next. -/
theorem nodes_arrays (count start : Nat) (h : resolve target = start + count) :
    Wire.nodes resolve start (arrays count (marker target)) =
      (List.range count).map fun k => Node.array [.node (start + k + 1)] := by
  induction count generalizing start with
  | zero => simp [arrays, marker, Wire.nodes, objectKind_marker]
  | succ count ih =>
    have hnext : resolve target = start + 1 + count := by omega
    simp [arrays, Wire.nodes, nodesOfItems, slots, slot_arrays count _ hnext, ih _ hnext,
      List.range_succ_eq_map, Nat.add_assoc, Nat.add_comm 1]

/-- The pointers of the detour: its arrays in order, and the two that they lead to. -/
theorem pointers_detour (count : Nat) : pointers (detour count) "" =
    "" :: (pointers (arrays count (marker "/1")) (itemAt "" 0) ++ ["/1", "/1/0"]) := by
  have hfirst : itemAt "" 1 = "/1" := rfl
  have hsecond : itemAt "/1" 0 = "/1/0" := rfl
  simp [detour, pointers, pointersOfItems, hfirst, hsecond]

/-- The reference is to the array with the next number after those that it stands in. -/
theorem idxOf_detour (count : Nat) : (pointers (detour count) "").idxOf "/1" = count + 1 := by
  refine idxOf_pointers (unambiguous_detour count).distinctKeys ?_
  have hlength : (pointers (arrays count (marker "/1")) (itemAt "" 0)).length = count := by
    rw [length_pointers, containers_arrays]
  rw [pointers_detour, List.getElem?_cons_succ, List.getElem?_append_right (Nat.le_of_eq hlength),
    hlength, Nat.sub_self]
  rfl

/-- The detour is read as the nodes of its graph. -/
theorem nodes_detour (count : Nat) (h : resolve "/1" = 1 + count) :
    (Wire.nodes resolve 0 (detour count)).toArray = (detourGraph count).nodes := by
  have hfirst := slot_arrays count 1 h
  have hinside := nodes_arrays count 1 h
  have harray (start : Nat) (values : List Json) :
      slot resolve start (.array values) = .node start := rfl
  refine congrArg List.toArray ?_
  simp [detour, Wire.nodes, nodesOfItems, slots, hfirst, harray, hinside, containers_arrays,
    List.range_succ, Nat.add_comm, Nat.add_left_comm]

/-- **The detour is read as its graph.** -/
theorem decode_detour (count : Nat) : decode (detour count) = .ok (detourGraph count) := by
  have hmarkers : malformedAt? (detour count) "" = none := by
    simp [detour, malformedAt?, malformedItemAt?, malformedAt?_arrays]
  have htargets : targets (detour count) = ["/1"] := by
    simp [detour, targets, targetsOfItems, targets_arrays]
  have hpointers : ∀ target ∈ targets (detour count), target ∈ pointers (detour count) "" := by
    simp [htargets, pointers_detour]
  have hresolve : (pointers (detour count) "").idxOf "/1" = 1 + count := by
    rw [idxOf_detour, Nat.add_comm]
  rw [decode_eq_ok hmarkers rfl hpointers, nodes_detour count hresolve]
  rfl

/-- Each of the arrays links to the next. -/
theorem node?_detourGraph {count k : Nat} (hpos : 0 < k) (hle : k ≤ count + 1) :
    (detourGraph count).node? k = some (.array [.node (k + 1)]) := by
  obtain ⟨k, rfl⟩ := Nat.exists_eq_succ_of_ne_zero (Nat.ne_of_gt hpos)
  have hlt : k < count + 1 := hle
  rw [detourGraph, node?, List.getElem?_toArray, List.cons_append, List.getElem?_cons_succ,
    List.getElem?_append_left (by simpa using hlt)]
  simp [hlt]

/-- As many arrays as the limit allows, the last of which holds the two others, are too many. -/
theorem encode_detourGraph {count : Nat} (h : Wire.maxDepth ≤ count + 2) :
    (detourGraph count).encode = .error (.tooDeep (Wire.maxDepth + 1)) := by
  have hroot : encodeItem (detourGraph count) Wire.maxDepth Wire.maxDepth "" (.node 0) ∅ =
      .error (.tooDeep (Wire.maxDepth + 1)) := by
    rw [show Wire.maxDepth = 1279 + 1 from rfl] at h ⊢
    refine encodeItem_error_of_slot Std.HashMap.getElem?_empty rfl rfl ?_
    refine encodeItem_of_chain (fun k hle hlt => ?_) (fun k hle => ?_) _
    · exact node?_detourGraph hle (by omega)
    · rw [Std.HashMap.getElem?_insert, if_neg (by simp; omega)]
      exact Std.HashMap.getElem?_empty
  rw [encode, encodeWithin, show (detourGraph count).root = .node 0 from rfl, hroot]
  rfl

/-- **A tree within the limit that cannot be written again.** Read as a graph, it is one container
too deep. -/
theorem encode_detour : (detour 1278).nesting = Wire.maxDepth ∧
    ∃ c, decode (detour 1278) = .ok c ∧ c.encode = .error (.tooDeep (Wire.maxDepth + 1)) := by
  refine ⟨?_, _, decode_detour 1278, encode_detourGraph (by decide)⟩
  simp [detour, Json.nesting, Json.deepest, nesting_arrays, nesting_marker, Wire.maxDepth]

end Content

end DebugBridge

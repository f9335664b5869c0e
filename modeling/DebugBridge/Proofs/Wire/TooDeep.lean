import DebugBridge.EngineEvent
import DebugBridge.Proofs.KeyMap
import DebugBridge.Proofs.Wire.Writing

/-!
# Proofs/Wire/TooDeep — graphs that cannot be written

Arrays one in the other leave room for fewer and fewer containers, and when there is no room left
the graph cannot be written (`encodeItem_of_chain`). Here such a chain hangs from the first member
of an object (`HasChain`); members that are set on top of it change nothing about that
(`HasChain.set`).
-/

namespace DebugBridge

/-- No key comes before the empty one. -/
theorem KeyMap.entries_of_get?_empty {α : Type} {m : KeyMap α} {value : α}
    (h : m.get? "" = some value) : ∃ rest, m.entries = ("", value) :: rest := by
  have hmem := KeyMap.get?_eq_some_iff.1 h
  have hsorted := m.sorted
  generalize m.entries = entries at hmem hsorted
  rcases entries with _ | ⟨head, rest⟩
  · cases hmem
  · rcases List.mem_cons.1 hmem with rfl | hrest
    · exact ⟨rest, rfl⟩
    · have hlt : head.1 < "" := List.rel_of_pairwise_cons hsorted hrest
      exact absurd (String.lt_iff.1 hlt) (List.not_lt_nil _)

namespace Wire

/-- Slots cannot be written if the first of them cannot be. -/
theorem encodeSlots_cons_error {item : SlotWriter} {place : String} {slot : Item} {seen : Seen}
    {fault : WireError} (h : item place slot seen = .error fault) (rest : List (String × Item)) :
    encodeSlots item ((place, slot) :: rest) seen = .error fault := by
  rw [encodeSlots, h]
  rfl

/-- A node that is met for the first time cannot be written if its first slot cannot be. -/
theorem encodeItem_error_of_slot {c : Content} {limit room id : Nat} {n : Node} {seen : Seen}
    {fault : WireError} {place inner : String} {slot : Item} {rest : List (String × Item)}
    (hnew : seen[id]? = none) (hn : c.node? id = some n)
    (hslots : slotPlaces place n = (inner, slot) :: rest)
    (hslot : encodeItem c limit room inner slot (seen.insert id place) = .error fault) :
    encodeItem c limit (room + 1) place (.node id) seen = .error fault := by
  rw [encodeItem_node, hnew]
  dsimp only
  rw [hn]
  dsimp only
  rw [hslots, encodeSlots_cons_error hslot]
  rfl

/-- **A chain of arrays that is as long as the room cannot be written**, if none of them was met
before. -/
theorem encodeItem_of_chain {c : Content} {limit room id : Nat} {seen : Seen}
    (h : ∀ k : Nat, id ≤ k → k < id + room → c.node? k = some (.array [.node (k + 1)]))
    (hnew : ∀ k : Nat, id ≤ k → seen[k]? = none) (place : String) :
    encodeItem c limit room place (.node id) seen = .error (.tooDeep (limit + 1)) := by
  induction room generalizing id seen place with
  | zero => rw [encodeItem]
  | succ room ih =>
    have hnode := h id (Nat.le_refl id) (by omega)
    refine encodeItem_error_of_slot (hnew id (Nat.le_refl id)) hnode rfl ?_
    refine ih (fun k hle hlt => h k (by omega) (by omega)) (fun k hle => ?_) _
    rw [Std.HashMap.getElem?_insert, if_neg (by simp; omega)]
    exact hnew k (by omega)

end Wire

namespace Content

/-- **Whether a chain of arrays hangs from the first member of the root object.** -/
structure HasChain (c : Content) (length : Nat) : Prop where
  root : c.root = .node 0
  hung : ∃ members, c.node? 0 = some (.object members) ∧ members.get? "" = some (.node 1)
  chain : ∀ k, 0 < k → k ≤ length → c.node? k = some (.array [.node (k + 1)])

/-- A chain as long as the limit cannot be written. -/
theorem HasChain.encode_eq {c : Content} {length : Nat} (h : c.HasChain length)
    (hlength : Wire.maxDepth ≤ length) : c.encode = .error (.tooDeep (Wire.maxDepth + 1)) := by
  obtain ⟨members, hmembers, hfirst⟩ := h.hung
  obtain ⟨rest, hentries⟩ := KeyMap.entries_of_get?_empty hfirst
  have hslots : ∃ inner others, Wire.slotPlaces "" (.object members) = (inner, .node 1) :: others := by
    rw [Wire.slotPlaces, hentries]
    exact ⟨_, _, rfl⟩
  obtain ⟨inner, others, hslots⟩ := hslots
  have hroot : Wire.encodeItem c Wire.maxDepth Wire.maxDepth "" c.root ∅ =
      .error (.tooDeep (Wire.maxDepth + 1)) := by
    rw [h.root, show Wire.maxDepth = 1279 + 1 from rfl]
    refine Wire.encodeItem_error_of_slot Std.HashMap.getElem?_empty hmembers hslots ?_
    refine Wire.encodeItem_of_chain (fun k hle hlt => h.chain k hle ?_) (fun k hle => ?_) _
    · have hlt : k < 1 + 1279 := hlt
      have hlength : 1280 ≤ length := hlength
      omega
    · rw [Std.HashMap.getElem?_insert, if_neg (by simp; omega)]
      exact Std.HashMap.getElem?_empty
  rw [encode, encodeWithin, hroot]
  rfl

/-- Setting another member keeps the chain. -/
theorem HasChain.set {c : Content} {length : Nat} (h : c.HasChain length) {key : String}
    (hkey : key ≠ "") {value : Json}
    (hadd : ∃ more x, addTree value c.nodes = (c.nodes ++ more, x)) :
    (c.set key value).HasChain length := by
  obtain ⟨more, x, hadd⟩ := hadd
  obtain ⟨members, hmembers, hfirst⟩ := h.hung
  have hold {k : Nat} {n : Node} (hn : c.node? k = some n) : (c.nodes ++ more)[k]? = some n := by
    obtain ⟨hlt, -⟩ := Array.getElem?_eq_some_iff.1 hn
    rw [Array.getElem?_append_left hlt]
    exact hn
  have hset : c.set key value =
      ⟨(c.nodes ++ more).setIfInBounds 0 (.object (members.insert key x)), .node 0⟩ := by
    rw [Content.set, add, hadd]
    dsimp only
    rw [setItem, h.root]
    dsimp only
    rw [insert?, hold hmembers]
    rfl
  rw [hset]
  refine ⟨rfl, ⟨members.insert key x, ?_, ?_⟩, fun k hpos hle => ?_⟩
  · have hlt := (Array.getElem?_eq_some_iff.1 (hold hmembers)).1
    rw [node?, Array.getElem?_setIfInBounds_self_of_lt hlt]
  · rw [KeyMap.get?_insert, if_neg (Ne.symm hkey)]
    exact hfirst
  · rw [node?, Array.getElem?_setIfInBounds_ne (Nat.ne_of_lt hpos)]
    exact hold (h.chain k hpos hle)

/-- An object from whose only member a chain of arrays hangs. -/
def chain (length : Nat) : Content where
  nodes := (Node.object (KeyMap.empty.insert "" (.node 1)) ::
    ((List.range length).map fun k => Node.array [.node (k + 2)]) ++ [Node.array []]).toArray
  root := .node 0

theorem hasChain_chain (length : Nat) : (chain length).HasChain length where
  root := rfl
  hung := ⟨_, rfl, by simp⟩
  chain := by
    intro k hpos hle
    obtain ⟨k, rfl⟩ := Nat.exists_eq_succ_of_ne_zero (Nat.ne_of_gt hpos)
    have hlt : k < length := hle
    rw [chain, node?, List.getElem?_toArray, List.cons_append, List.getElem?_cons_succ,
      List.getElem?_append_left (by simpa using hlt)]
    simp [hlt]

end Content

/-- A step cannot be written if its context cannot be for a chain. -/
theorem Step.hasChain_content {step : Step} {length : Nat} (h : step.context.HasChain length) :
    (step.content []).HasChain length := by
  rw [Step.content]
  refine .set (.set (.set (.set h (by decide) ?pc) (by decide) ?address) (by decide) ?opcode)
    (by decide) ?specialEvents
  case pc => exact ⟨#[], _, by rw [Array.append_empty]; rfl⟩
  case address => exact ⟨#[], _, by rw [Array.append_empty]; rfl⟩
  case opcode => exact ⟨#[_], _, by rw [Array.append_singleton]; rfl⟩
  case specialEvents => exact ⟨#[_], _, by rw [Array.append_singleton]; rfl⟩

end DebugBridge

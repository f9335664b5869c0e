import DebugBridge.Proofs.Frame
import DebugBridge.Proofs.Wire.Acceptance
import DebugBridge.Proofs.Wire.TooDeep
import DebugBridge.Proofs.Wire.Walk

/-!
# Proofs/Wire/Unlimited — the limit cuts off the trees that are too deep, and no others

The walk without a limit writes one tree. The writer with some room writes the same, unless what is
written nests deeper than that (`encodeSlots_of_writes`, `encodeItem_error`). So **the limit cuts
off exactly the trees that are too deep** and changes nothing about the others
(`Content.encode_unlimited`). A link that dangles is the exception, and therefore excluded: it is
null in the tree, but the writer looks for room before it looks for the node.
-/

namespace DebugBridge

namespace Wire

variable {c : Content} {places rest : List (String × Item)} {p : String × Item}
  {seen seen' seen'' : Seen} {values others : List Json} {v : Json} {limit room : Nat}

/-- The writer has one complaint. -/
theorem encodeSlots_error {item : SlotWriter}
    (hitem : ∀ place x seen fault, item place x seen = .error fault → fault = .tooDeep (limit + 1))
    {fault : WireError} (h : encodeSlots item places seen = .error fault) :
    fault = .tooDeep (limit + 1) := by
  induction places generalizing seen with
  | nil => cases h
  | cons p rest ih =>
    simp only [encodeSlots, bind, Except.bind, pure, Except.pure] at h
    split at h
    · next hfirst =>
      cases h
      exact hitem _ _ _ _ hfirst
    · split at h
      · next hlater =>
        cases h
        exact ih hlater
      · cases h

theorem encodeItem_error {place : String} {x : Item} {fault : WireError}
    (h : encodeItem c limit room place x seen = .error fault) : fault = .tooDeep (limit + 1) := by
  induction room generalizing place x seen fault with
  | zero =>
    cases x with
    | node id =>
      rw [encodeItem] at h
      cases h
      rfl
    | null | bool _ | number _ | string _ => cases h
  | succ room ih =>
    by_cases hx : x.IsScalar
    · rw [encodeItem_scalar hx] at h
      cases h
    obtain ⟨id, rfl⟩ : ∃ id, x = .node id := by simpa [Item.IsScalar] using hx
    rw [encodeItem_node] at h
    split at h
    · cases h
    · split at h
      · cases h
      · simp only [Except.map] at h
        split at h
        · next hinside =>
          cases h
          exact encodeSlots_error (fun _ _ _ _ h => ih h) hinside
        · cases h

theorem nesting_written_pos (n : Node) (values : List Json) : 0 < (written n values).nesting := by
  cases n <;> exact Nat.succ_pos _

theorem children_written {n : Node} (h : values.length = n.items.length) :
    (written n values).children = values := by
  cases n with
  | array items => rfl
  | object members =>
    exact List.map_snd_zip (by simp_all [Node.items, KeyMap.keys, KeyMap.values])

theorem encodeSlots_cons {item : SlotWriter} {place : String} {x : Item}
    (h : item place x seen = .ok (v, seen')) (later : encodeSlots item rest seen' = .ok (values, seen'')) :
    encodeSlots item ((place, x) :: rest) seen = .ok (v :: values, seen'') := by
  simp only [encodeSlots, h, later, bind, Except.bind, pure, Except.pure]

theorem encodeSlots_singleton (item : SlotWriter) (place : String) (x : Item) (seen : Seen) :
    encodeSlots item [(place, x)] seen = (item place x seen).map fun r => ([r.1], r.2) := by
  simp only [encodeSlots, bind, Except.bind, pure, Except.pure]
  cases item place x seen <;> rfl

/-- **The writer writes what it has room for.** -/
theorem encodeSlots_of_writes (closed : c.Closed) (h : Writes c places seen values seen')
    (hreach : WithinReach c (places.map (·.2))) (hroom : ∀ v ∈ values, v.nesting ≤ room) :
    encodeSlots (encodeItem c limit room) places seen = .ok (values, seen') := by
  induction h generalizing room with
  | nil => rfl
  | scalar hx _ ih =>
    have hlater := ih hreach.tail fun v hv => hroom v (List.mem_cons_of_mem _ hv)
    exact encodeSlots_cons (encodeItem_scalar hx ..) hlater
  | @again place target id rest seen seen' values met _ ih =>
    have hlater := ih hreach.tail fun v hv => hroom v (List.mem_cons_of_mem _ hv)
    have hroom' : 0 < room := hroom _ List.mem_cons_self
    obtain ⟨room, rfl⟩ := Nat.exists_eq_succ_of_ne_zero hroom'.ne'
    refine encodeSlots_cons ?_ hlater
    rw [encodeItem_node, met]
  | missing new none _ ih =>
    -- the one thing that a walk without a limit writes without room is excluded
    have hsome := closed _ (hreach _ List.mem_cons_self)
    rw [none] at hsome
    cases hsome
  | @enter place id n rest seen seen' seen'' inside values new here hinside _ ihinside ih =>
    have hlater := ih hreach.tail fun v hv => hroom v (List.mem_cons_of_mem _ hv)
    have hown : (written n inside).nesting ≤ room := hroom _ List.mem_cons_self
    obtain ⟨room, rfl⟩ :=
      Nat.exists_eq_succ_of_ne_zero ((nesting_written_pos n inside).trans_le hown).ne'
    have hwithin : encodeSlots (encodeItem c limit room) (slotPlaces place n)
        (seen.insert id place) = .ok (inside, seen') := ihinside (hreach.inside here place) fun v hv => by
      have hlt := Json.nesting_lt_of_mem_children ((children_written hinside.length_items).symm ▸ hv)
      omega
    refine encodeSlots_cons ?_ hlater
    rw [encodeItem_node, new]
    simp only [here, hwithin]
    rfl

end Wire

/-! ## Trees without a limit -/

namespace Content

open Wire

variable {c : Content} {v w : Json}

/-- **A tree that is written without a limit is written with any limit that it keeps.** -/
theorem WrittenAs.encodeWithin_eq (h : c.WrittenAs v) (closed : c.Closed) {limit : Nat}
    (hlimit : v.nesting ≤ limit) : c.encodeWithin limit = .ok v := by
  obtain ⟨seen', h⟩ := h
  have hslots : encodeSlots (encodeItem c limit limit) [("", c.root)] ∅ = .ok ([v], seen') :=
    encodeSlots_of_writes closed h (withinReach_root c) (by simpa using hlimit)
  rw [encodeSlots_singleton] at hslots
  rw [encodeWithin]
  cases hwalk : encodeItem c limit limit "" c.root ∅ with
  | error fault =>
    rw [hwalk] at hslots
    cases hslots
  | ok r =>
    rw [hwalk] at hslots
    cases hslots
    rfl

/-- There is one such tree: some limit is kept by any two. -/
theorem WrittenAs.unique (h : c.WrittenAs v) (h' : c.WrittenAs w) (closed : c.Closed) : v = w := by
  have hv := h.encodeWithin_eq closed (Nat.le_max_left v.nesting w.nesting)
  have hw := h'.encodeWithin_eq closed (Nat.le_max_right v.nesting w.nesting)
  exact Except.ok.inj (hv.symm.trans hw)

theorem encode_error {fault : WireError} (h : c.encode = .error fault) :
    fault = .tooDeep (Wire.maxDepth + 1) := by
  unfold encode encodeWithin Except.map at h
  split at h
  · next hwalk =>
    cases h
    exact encodeItem_error hwalk
  · cases h

/-- **Writing is the walk without a limit, cut off at the limit.** -/
theorem WrittenAs.encode_eq (h : c.WrittenAs v) (closed : c.Closed) :
    c.encode = if v.nesting ≤ Wire.maxDepth then .ok v else .error (.tooDeep (Wire.maxDepth + 1)) := by
  split
  · next hle => exact h.encodeWithin_eq closed hle
  · next hlt =>
    cases hencode : c.encode with
    | error fault => rw [encode_error hencode]
    | ok w =>
      obtain rfl := h.unique (writtenAs_of_encode hencode) closed
      exact absurd (nesting_le_of_encode hencode) hlt

end Content

namespace Envelope

/-- **No frame that is written is refused for its depth.** -/
theorem decode_ne_tooDeep {e : Envelope} {frame : List UInt8} (h : e.encode = .ok frame)
    (depth : Nat) : decode frame ≠ .error (.tooDeep depth) := by
  obtain ⟨content, hcontent, rfl⟩ := encode_eq_ok h
  have hdepth : Json.bracketDepth (Json.object (e.members content)).bytes - 1 = content.nesting := by
    rw [Json.bracketDepth_bytes, nesting_members, Nat.add_sub_cancel]
  have hle := Content.nesting_le_of_encode hcontent
  unfold decode
  simp only [hdepth, Nat.not_lt.2 hle, if_false, bind, Except.bind, pure, Except.pure]
  split
  · nofun
  · next fields _ =>
    split
    · next fault hfault =>
      rintro ⟨⟩
      exact Content.decode_ne_tooDeep _ depth hfault
    · nofun

end Envelope

namespace Content

open Wire

/-- **The limit is exact, and both directions share it.** A graph without dangling links has one
tree that the walk without a limit writes. It is written as this tree if the tree nests no deeper
than the limit, markers counted, and otherwise it is too deep; and no frame of the graph is too deep
to be read. -/
theorem encode_unlimited {c : Content} (closed : c.Closed) :
    ∃ tree, (∀ v, c.WrittenAs v ↔ v = tree) ∧
      (c.encode = if tree.nesting ≤ Wire.maxDepth then .ok tree
        else .error (.tooDeep (Wire.maxDepth + 1))) ∧
      ∀ (e : Envelope) frame, e.content = c → e.encode = .ok frame →
        ∀ depth, Envelope.decode frame ≠ .error (.tooDeep depth) := by
  obtain ⟨tree, h⟩ := exists_writtenAs c
  refine ⟨tree, fun v => ⟨fun hv => hv.unique h closed, fun heq => heq ▸ h⟩, h.encode_eq closed, ?_⟩
  exact fun e frame _ hframe depth => Envelope.decode_ne_tooDeep hframe depth

/-- Arrays one in the other, the innermost of which holds the outermost. -/
def ring (length : Nat) : Content where
  nodes := ((List.range length).map fun k => Node.array [.node ((k + 1) % length)]).toArray
  root := .node 0

/-- The tree of a ring: it ends in a marker, which counts as one more container. -/
def ringTree : (length : Nat) → Json
  | 0 => marker ""
  | length + 1 => .array [ringTree length]

theorem nesting_ringTree (length : Nat) : (ringTree length).nesting = length + 1 := by
  induction length with
  | zero => rfl
  | succ length ih => simp [ringTree, Json.nesting, Json.deepest, ih]

theorem node?_ring {length k : Nat} (h : k < length) :
    (ring length).node? k = some (.array [.node ((k + 1) % length)]) := by
  simp [ring, node?, h]

theorem closed_ring {length : Nat} (h : 0 < length) : (ring length).Closed := by
  refine closed_of_links (by simpa [ring, Item.node?] using h) fun n hn x hx id hid => ?_
  obtain ⟨k, -, rfl⟩ := List.mem_map.1 hn
  obtain rfl := List.mem_singleton.1 hx
  obtain rfl := Option.some.inj hid
  simpa [ring] using Nat.mod_lt _ h

/-- A walk that has come as far as the array with number `k`. -/
theorem writes_ring {length left k : Nat} (hk : k + left = length) {seen : Seen}
    (hroot : k ≠ 0 → seen[0]? = some "") (hseen : ∀ i : Nat, k ≤ i → seen[i]? = none)
    (place : String) (hplace : k = 0 → place = "") (hleft : 0 < length) :
    ∃ seen', Writes (ring length) [(place, .node (k % length))] seen [ringTree left] seen' := by
  induction left generalizing k seen place with
  | zero =>
    obtain rfl : k = length := hk
    rw [Nat.mod_self]
    exact ⟨seen, .again (hroot hleft.ne') .nil⟩
  | succ left ih =>
    have hlt : k < length := by omega
    rw [Nat.mod_eq_of_lt hlt]
    have hnext (i : Nat) (hi : k + 1 ≤ i) : (seen.insert k place)[i]? = none := by
      rw [Std.HashMap.getElem?_insert, if_neg (by simp; omega)]
      exact hseen i (by omega)
    have hfirst : (seen.insert k place)[0]? = some "" := by
      rw [Std.HashMap.getElem?_insert]
      split
      · next heq => rw [hplace (beq_iff_eq.1 heq)]
      · next hne => exact hroot fun heq => hne (beq_iff_eq.2 heq)
    obtain ⟨seen', h⟩ := ih (k := k + 1) (by omega) (fun _ => hfirst) hnext (itemAt place 0) nofun
    exact ⟨seen', .enter (hseen k (Nat.le_refl k)) (node?_ring hlt) h .nil⟩

theorem writtenAs_ring {length : Nat} (h : 0 < length) :
    (ring length).WrittenAs (ringTree length) := by
  obtain ⟨seen', hwalk⟩ :
      ∃ seen', Writes (ring length) [("", .node (0 % length))] ∅ [ringTree length] seen' :=
    writes_ring (Nat.zero_add length) nofun (by simp) "" (fun _ => rfl) h
  rw [Nat.zero_mod] at hwalk
  exact ⟨seen', hwalk⟩

/-- At the limit the marker makes the difference. -/
theorem encode_unlimited_ring : (ring 1279).Closed ∧ (ring 1280).Closed ∧
    (ring 1279).encode = .ok (ringTree 1279) ∧ (ring 1280).encode = .error (.tooDeep 1281) := by
  have closed (length : Nat) (h : 0 < length) : (ring length).Closed := closed_ring h
  refine ⟨closed 1279 (by decide), closed 1280 (by decide), ?_, ?_⟩
  · obtain ⟨tree, hwritten, hencode, -⟩ := encode_unlimited (closed 1279 (by decide))
    obtain rfl := (hwritten _).1 (writtenAs_ring (by decide))
    rw [hencode, nesting_ringTree, if_pos (by decide)]
  · obtain ⟨tree, hwritten, hencode, -⟩ := encode_unlimited (closed 1280 (by decide))
    obtain rfl := (hwritten _).1 (writtenAs_ring (by decide))
    rw [hencode, nesting_ringTree, if_neg (by decide)]
    rfl

end Content

end DebugBridge

import DebugBridge.Proofs.Content.Isomorphism
import DebugBridge.Proofs.Content.Unfolding
import DebugBridge.Proofs.Wire.Acceptance
import DebugBridge.Proofs.Wire.RoundTrip

/-!
# Proofs/Wire/Canonical — equal graphs are written alike, and only they

Two equal graphs may number their nodes differently, and hold others out of reach. The writer looks
at numbers only to tell whether it has met a node, so along a correspondence two walks go side by
side, with the same pointer for partners (`SeenAlike`), and end in the same way: with equal trees,
or both without room (`encodeItem_alike`).

The other way the reader is asked. It numbers containers by their order in the tree, so it reads
equal trees as graphs that agree number by number (`decode_alike`); and what it reads corresponds to
what was written.
-/

namespace DebugBridge

/-- **Two outcomes are alike**: related results, or the same error. -/
inductive SameOutcome {ε α β : Type} (S : α → β → Prop) : Except ε α → Except ε β → Prop
  | ok {x : α} {y : β} (related : S x y) : SameOutcome S (.ok x) (.ok y)
  | error (fault : ε) : SameOutcome S (.error fault) (.error fault)

/-- Outcomes stay the same, errors included, under changes that keep what is related so. -/
theorem SameOutcome.map {ε α β γ δ : Type} {S : α → β → Prop} {T : γ → δ → Prop} {f : α → γ}
    {g : β → δ} (hfg : ∀ x y, S x y → T (f x) (g y)) {x : Except ε α} {y : Except ε β}
    (h : SameOutcome S x y) : SameOutcome T (x.map f) (y.map g) := by
  cases h with
  | ok related => exact .ok (hfg _ _ related)
  | error fault => exact .error fault

namespace Wire

open Json (Alike)

variable {a b : Content} {R : NodeId → NodeId → Prop}

/-! ## Writing side by side -/

/-- Partners have the same pointer, or neither has one. -/
def SeenAlike (R : NodeId → NodeId → Prop) (seen other : Seen) : Prop :=
  ∀ i j, R i j → seen[i]? = other[j]?

/-- Where nothing was visited, the same was visited. -/
theorem seenAlike_empty (R : NodeId → NodeId → Prop) : SeenAlike R ∅ ∅ :=
  fun _ _ _ => by rw [Std.HashMap.getElem?_empty, Std.HashMap.getElem?_empty]

/-- To visit corresponding nodes under one pointer keeps what was visited alike. -/
theorem SeenAlike.insert {seen other : Seen} (h : SeenAlike R seen other)
    (unique : Relator.BiUnique R) {i j : NodeId} (hij : R i j) (pointer : String) :
    SeenAlike R (seen.insert i pointer) (other.insert j pointer) := by
  intro k l hkl
  have hsame : i = k ↔ j = l := Relator.rel_eq unique hij hkl
  simp only [Std.HashMap.getElem?_insert, beq_iff_eq, hsame, h k l hkl]

/-- Corresponding nodes have corresponding slots, at the same places. -/
theorem forall₂_slotPlaces {n m : Node} (h : n.Corresponds R m) (pointer : String) :
    List.Forall₂ (fun p q => p.1 = q.1 ∧ Item.Corresponds R p.2 q.2) (slotPlaces pointer n)
      (slotPlaces pointer m) := by
  refine KeyMap.forall₂_entries_iff.2 ⟨?_, ?_⟩
  · cases h with
    | array items => simp only [slotPlaces, map_fst_itemPlaces, items.length_eq]
    | @object members others keys _ =>
      have hkeys (members : KeyMap Item) :
          (members.entries.map fun e => (escapeKey e.1, e.2)).map (·.1) =
            members.keys.map escapeKey := by simp [KeyMap.keys]
      simp only [slotPlaces, map_fst_memberPlaces, hkeys, keys]
  · rw [map_snd_slotPlaces, map_snd_slotPlaces]
    exact h.items

/-- Corresponding nodes are written alike, if their slots are. -/
theorem alike_written {n m : Node} (h : n.Corresponds R m) {values others : List Json}
    (hvalues : List.Forall₂ Alike values others) : Alike (written n values) (written m others) := by
  rw [Json.alike_iff_level]
  cases h with
  | array items => exact .array hvalues
  | object keys _ =>
    rw [written, written, keys]
    exact .object (KeyMap.forall₂_zip _ hvalues)

/-- A marker is written as itself. -/
theorem alike_marker (target : String) : Alike (marker target) (marker target) := by
  simp [marker, Alike, Json.same, Json.sameMembers]

/-- Corresponding slots are written alike one after the other, if each of them is. -/
theorem encodeSlots_alike {item other : SlotWriter}
    (hitem : ∀ place x y seen seen', Item.Corresponds R x y → SeenAlike R seen seen' →
      SameOutcome (fun p q => Alike p.1 q.1 ∧ SeenAlike R p.2 q.2) (item place x seen)
        (other place y seen'))
    {places more : List (String × Item)}
    (hplaces : List.Forall₂ (fun p q => p.1 = q.1 ∧ Item.Corresponds R p.2 q.2) places more)
    {seen seen' : Seen} (hseen : SeenAlike R seen seen') :
    SameOutcome (fun p q => List.Forall₂ Alike p.1 q.1 ∧ SeenAlike R p.2 q.2)
      (encodeSlots item places seen) (encodeSlots other more seen') := by
  induction hplaces generalizing seen seen' with
  | nil => exact .ok ⟨.nil, hseen⟩
  | @cons p q places more head _ ih =>
    obtain ⟨place, x⟩ := p
    obtain ⟨place', y⟩ := q
    obtain ⟨rfl, hxy⟩ : place = place' ∧ Item.Corresponds R x y := head
    have hfirst := hitem place x y seen seen' hxy hseen
    simp only [encodeSlots, bind, Except.bind, pure, Except.pure]
    generalize item place x seen = first at hfirst
    generalize other place y seen' = first' at hfirst
    cases hfirst with
    | error fault => exact .error fault
    | @ok r r' hr =>
      have hlater := ih hr.2
      dsimp only
      generalize encodeSlots item places r.2 = later at hlater
      generalize encodeSlots other more r'.2 = later' at hlater
      cases hlater with
      | error fault => exact .error fault
      | ok hlater => exact .ok ⟨.cons hr.1 hlater.1, hlater.2⟩

/-- **Corresponding slots are written alike**, at the same place and with the same room. -/
theorem encodeItem_alike (h : a.Correspondence b R) (limit room : Nat) (place : String)
    {x y : Item} {seen seen' : Seen} (hxy : Item.Corresponds R x y)
    (hseen : SeenAlike R seen seen') :
    SameOutcome (fun p q => Alike p.1 q.1 ∧ SeenAlike R p.2 q.2)
      (encodeItem a limit room place x seen) (encodeItem b limit room place y seen') := by
  induction room generalizing place x y seen seen' with
  | zero =>
    cases hxy with
    | scalar same =>
      obtain ⟨hx, hy⟩ := Item.isScalar_of_sameScalar same
      rw [encodeItem_scalar hx, encodeItem_scalar hy]
      exact .ok ⟨alike_scalarValue same, hseen⟩
    | node related =>
      rw [encodeItem, encodeItem]
      exact .error _
  | succ room ih =>
    cases hxy with
    | scalar same =>
      obtain ⟨hx, hy⟩ := Item.isScalar_of_sameScalar same
      rw [encodeItem_scalar hx, encodeItem_scalar hy]
      exact .ok ⟨alike_scalarValue same, hseen⟩
    | @node i j related =>
      rw [encodeItem_node, encodeItem_node, hseen i j related]
      have hinsert := hseen.insert h.unique related place
      have hnodes := h.nodes related
      cases seen'[j]? with
      | some target => exact .ok ⟨alike_marker target, hseen⟩
      | none =>
        dsimp only
        generalize a.node? i = n at hnodes
        generalize b.node? j = m at hnodes
        cases hnodes with
        | none => exact .ok ⟨Json.alike_iff_level.2 .null, hinsert⟩
        | some hnodes =>
          have hslots := encodeSlots_alike (fun place x y seen seen' => ih place)
            (forall₂_slotPlaces hnodes place) hinsert
          exact hslots.map fun p q hpq => ⟨alike_written hnodes hpq.1, hpq.2⟩

/-! ## Reading equal trees -/

section

variable {v w : Json} {values others : List Json} {members more : List (String × Json)}

/-- Objects that are alike are of the same kind. -/
theorem objectKind_alike (h : List.Forall₂ (fun m n => m.1 = n.1 ∧ Alike m.2 n.2) members more) :
    objectKind members = objectKind more := by
  have hlookup : Option.Rel Alike (members.lookup refKey) (more.lookup refKey) :=
    KeyMap.rel_lookup h refKey
  unfold objectKind
  generalize members.lookup refKey = found at hlookup
  generalize more.lookup refKey = found' at hlookup
  cases hlookup with
  | none => rfl
  | some hvalue =>
    -- how many members there are is the same for both
    rcases h with _ | ⟨_, _ | ⟨_, _⟩⟩ <;> cases hvalue.level <;> rfl

/-- References that are alike have the same target. -/
theorem target?_alike (h : Alike v w) : target? v = target? w := by
  cases h.level with
  | object members => simp only [target?, objectKind_alike members]
  | null | bool _ | number _ | string _ | array _ => rfl

/-- Containers that are alike have what is alike inside, at the same places. -/
theorem inside?_alike (h : Alike v w) (pointer : String) :
    Option.Rel (List.Forall₂ fun c d => c.1 = d.1 ∧ Alike c.2 d.2) (inside? pointer v)
      (inside? pointer w) := by
  cases h.level with
  | array items =>
    refine .some (KeyMap.forall₂_entries_iff.2 ⟨?_, ?_⟩)
    · rw [map_fst_itemPlaces, map_fst_itemPlaces, items.length_eq]
    · rwa [map_snd_itemPlaces, map_snd_itemPlaces]
  | @object members more hmembers =>
    simp only [inside?, objectKind_alike hmembers]
    cases objectKind more with
    | plain =>
      obtain ⟨hkeys, hvalues⟩ := KeyMap.forall₂_entries_iff.1 hmembers
      refine .some (KeyMap.forall₂_entries_iff.2 ⟨?_, ?_⟩)
      · rw [map_fst_memberPlaces, map_fst_memberPlaces, hkeys]
      · rwa [map_snd_memberPlaces, map_snd_memberPlaces]
    | reference _ | malformed => exact .none
  | null | bool _ | number _ | string _ => exact .none

/-- Lists whose items lead to the same lead to the same. -/
theorem flatMap_eq_of_forall₂ {α β γ : Type} {S : α → β → Prop} {f : α → List γ} {g : β → List γ}
    {l : List α} {l' : List β} (h : List.Forall₂ S l l')
    (hfg : ∀ x ∈ l, ∀ y, S x y → f x = g y) : l.flatMap f = l'.flatMap g := by
  induction h with
  | nil => rfl
  | cons head _ ih =>
    rw [List.flatMap_cons, List.flatMap_cons, hfg _ List.mem_cons_self _ head,
      ih fun x hx => hfg x (List.mem_cons_of_mem _ hx)]

/-- **Equal trees have their containers at the same places.** -/
theorem pointers_alike (h : Alike v w) (pointer : String) : pointers v pointer = pointers w pointer := by
  induction v using Json.inductionOn generalizing w pointer with
  | h v ih =>
    have hinside := inside?_alike h pointer
    rw [pointers_eq, pointers_eq]
    cases hv : inside? pointer v with
    | none =>
      rw [hv] at hinside
      generalize inside? pointer w = inside at hinside
      cases hinside
      rfl
    | some inside =>
      rw [hv] at hinside
      generalize inside? pointer w = inside' at hinside
      cases hinside with
      | some hplaces =>
        refine congrArg (pointer :: ·) (flatMap_eq_of_forall₂ hplaces fun c hc d hcd => ?_)
        have hchild : c.2 ∈ v.children := map_snd_of_inside? hv ▸ List.mem_map_of_mem hc
        rw [ih c.2 hchild hcd.2, hcd.1]

/-- Trees that are alike have as many containers. -/
theorem containers_alike (h : Alike v w) : containers v = containers w := by
  rw [← length_pointers v "", ← length_pointers w "", pointers_alike h]

variable (resolve : String → NodeId)

/-- Trees that are alike have the same slot, numbers apart that are equal as values. -/
theorem slot_alike (start : NodeId) (h : Alike v w) :
    Item.Corresponds Eq (slot resolve start v) (slot resolve start w) := by
  cases h.level with
  | null => exact .scalar rfl
  | bool value => exact .scalar (by simp [slot, Item.sameScalar])
  | number same => exact .scalar same
  | string text => exact .scalar (by simp [slot, Item.sameScalar])
  | array items => exact .node rfl
  | object members =>
    simp only [slot, objectKind_alike members]
    split
    · exact .node rfl
    · exact .node rfl

/-- Values that are alike have the same slots, numbers apart that are equal as values. -/
theorem slots_alike (start : NodeId) (h : List.Forall₂ Alike values others) :
    List.Forall₂ (Item.Corresponds Eq) (slots resolve start values) (slots resolve start others) := by
  induction h generalizing start with
  | nil => exact .nil
  | cons head _ ih =>
    rw [slots, slots, containers_alike head]
    exact .cons (slot_alike resolve start head) (ih _)

/-- Members that are alike have the same slots, under the same keys. -/
theorem memberSlots_alike (references : Bool) (start : NodeId)
    (h : List.Forall₂ (fun m n => m.1 = n.1 ∧ Alike m.2 n.2) members more) :
    List.Forall₂ (fun e f => e.1 = f.1 ∧ Item.Corresponds Eq e.2 f.2)
      (memberSlots resolve references start members) (memberSlots resolve references start more) := by
  induction h generalizing start with
  | nil => exact .nil
  | @cons m n _ _ head _ ih =>
    obtain ⟨key, value⟩ := m
    obtain ⟨key', value'⟩ := n
    obtain ⟨rfl, hvalue⟩ : key = key' ∧ Alike value value' := head
    simp only [memberSlots, containers_alike hvalue, target?_alike hvalue]
    split
    · exact .cons ⟨rfl, slot_alike resolve start hvalue⟩ (ih _)
    · exact ih _

/-- Members that are alike make nodes that correspond. -/
theorem corresponds_memberMap (start : NodeId)
    (h : List.Forall₂ (fun m n => m.1 = n.1 ∧ Alike m.2 n.2) members more) :
    Node.Corresponds Eq (.object (memberMap resolve start members))
      (.object (memberMap resolve start more)) := by
  have hslots := List.rel_append (memberSlots_alike resolve false start h)
    (memberSlots_alike resolve true start h)
  obtain ⟨hkeys, hvalues⟩ := KeyMap.forall₂_entries_iff.1 (KeyMap.forall₂_ofList hslots)
  exact .object hkeys hvalues

/-- Values that are alike make nodes that correspond, one by one. -/
theorem nodesOfItems_alike (h : List.Forall₂ Alike values others)
    (hnodes : ∀ v ∈ values, ∀ w, Alike v w → ∀ start,
      List.Forall₂ (Node.Corresponds Eq) (nodes resolve start v) (nodes resolve start w))
    (start : NodeId) : List.Forall₂ (Node.Corresponds Eq) (nodesOfItems resolve start values)
      (nodesOfItems resolve start others) := by
  induction h generalizing start with
  | nil => exact .nil
  | cons head _ ih =>
    rw [nodesOfItems, nodesOfItems, containers_alike head]
    exact List.rel_append (hnodes _ List.mem_cons_self _ head start)
      (ih (fun v hv => hnodes v (List.mem_cons_of_mem _ hv)) _)

/-- **Equal trees are read as nodes that agree number by number.** -/
theorem nodes_alike (start : NodeId) (h : Alike v w) :
    List.Forall₂ (Node.Corresponds Eq) (nodes resolve start v) (nodes resolve start w) := by
  induction v using Json.inductionOn generalizing w start with
  | h v ih =>
    have hchildren {values others : List Json} (h : List.Forall₂ Alike values others)
        (hmem : ∀ v' ∈ values, v' ∈ v.children) (start : NodeId) :=
      nodesOfItems_alike resolve h (fun v hv w hvw start => ih v (hmem v hv) start hvw) start
    cases h.level with
    | array items =>
      rw [nodes, nodes]
      exact .cons (.array (slots_alike resolve _ items)) (hchildren items (fun _ h => h) _)
    | @object members more hmembers =>
      simp only [nodes, objectKind_alike hmembers, nodesOfMembers_eq]
      split
      · refine .cons (corresponds_memberMap resolve _ hmembers) (hchildren ?_ (fun _ h => h) _)
        exact (KeyMap.forall₂_entries_iff.1 hmembers).2
      · exact .nil
    | null | bool _ | number _ | string _ => exact .nil

end

end Wire

namespace Content

open Wire

/-- **Equal trees are read as graphs that agree number by number.** -/
theorem decode_alike {v w : Json} (h : v.Alike w) {d e : Content} (hd : decode v = .ok d)
    (he : decode w = .ok e) : d.Correspondence e Eq := by
  obtain rfl := eq_of_decode_eq_ok hd
  obtain rfl := eq_of_decode_eq_ok he
  have hnodes := nodes_alike (pointers v "").idxOf 0 h
  rw [← pointers_alike h ""]
  refine ⟨slot_alike _ 0 h, ⟨fun _ _ _ h h' => h.trans h'.symm, fun _ _ _ h h' => h.symm.trans h'⟩, ?_⟩
  rintro i _ rfl
  simp only [node?, List.getElem?_toArray]
  exact rel_getElem? hnodes i

/-- Closed graphs that are written alike are equal. -/
theorem same_of_encode_alike {a b : Content} (closed : a.Closed) (closed' : b.Closed) {v w : Json}
    (hv : a.encode = .ok v) (hw : b.encode = .ok w) (h : v.Alike w) : a.same b = true := by
  obtain ⟨-, d, _, hd, hda⟩ := ordered_and_exists_correspondence closed hv
  obtain ⟨-, e, _, he, heb⟩ := ordered_and_exists_correspondence closed' hw
  exact same_of_correspondence ((hda.symm.comp (decode_alike h hd he)).comp heb)

/-- **Writing is canonical.** Equal graphs are written as equal trees, or are both too deep, and
they unfold into equal trees, or both into nothing, however their nodes are numbered. If no link of
two graphs dangles, and they are written as equal trees, they are equal. -/
theorem encode_canonical :
    (∀ a b : Content, a.same b = true →
      SameOutcome Json.Alike a.encode b.encode ∧ Option.Rel Json.Alike a.toJson? b.toJson?) ∧
    ∀ a b : Content, a.Closed → b.Closed → ∀ v w, a.encode = .ok v → b.encode = .ok w →
      v.Alike w → a.same b = true := by
  refine ⟨fun a b h => ?_, fun a b closed closed' v w => same_of_encode_alike closed closed'⟩
  obtain ⟨R, hR⟩ := exists_correspondence_of_same h
  refine ⟨?_, toJson?_alike hR⟩
  have hwalk := encodeItem_alike hR Wire.maxDepth Wire.maxDepth "" hR.root
    (seenAlike_empty R)
  exact hwalk.map fun p q hpq => hpq.1

/-- An object with a shared array and a zero. -/
def parcel : Content :=
  ⟨#[.object (.ofList [("x", .node 1), ("y", .node 1), ("z", .number (.real (.zero false)))]),
    .array [.bool true]], .node 0⟩

/-- The same with other numbers, a node out of reach and the other zero. -/
def parcelCopy : Content :=
  ⟨#[.array [], .array [.bool true],
    .object (.ofList [("x", .node 1), ("y", .node 1), ("z", .number (.real (.zero true)))])], .node 2⟩

/-- The tree that either is written as, up to the sign of the zero. -/
def parcelTree (negative : Bool) : Json :=
  .object [("x", .array [.bool true]), ("y", marker "/x"), ("z", .number (.real (.zero negative)))]

theorem encode_canonical_parcel : parcel.same parcelCopy = true ∧
    parcel.encode = .ok (parcelTree false) ∧ parcelCopy.encode = .ok (parcelTree true) ∧
    SameOutcome Json.Alike parcel.encode parcelCopy.encode ∧
    Option.Rel Json.Alike parcel.toJson? parcelCopy.toJson? := by
  have closed : parcel.Closed := closed_of_links (by decide) (by decide)
  have closed' : parcelCopy.Closed := closed_of_links (by decide) (by decide)
  have h : parcel.encode = .ok (parcelTree false) := by cbv
  have h' : parcelCopy.encode = .ok (parcelTree true) := by cbv
  have halike : Json.Alike (parcelTree false) (parcelTree true) := by decide
  have hsame := encode_canonical.2 parcel parcelCopy closed closed' _ _ h h' halike
  exact ⟨hsame, h, h', encode_canonical.1 parcel parcelCopy hsame⟩

end Content

end DebugBridge

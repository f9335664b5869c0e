import DebugBridge.Proofs.Json.Place
import DebugBridge.Wire.Decoding
import Mathlib.Algebra.GroupWithZero.Nat
import Mathlib.Data.List.Nodup

/-!
# Proofs/Wire/Document — a written tree, container by container

Reading looks at a tree five times: for malformed markers, for the targets of references, for the
pointers of the containers, for their number and for their nodes. Each time it goes into the
containers and into nothing else, in document order. `inside?` gives what stands inside a container
with its places, and every one of the five is described by it.

No place of a tree is visited twice, so **the pointers of its containers are all different**
(`nodup_pointers`), and a pointer finds the place of its container in document order again
(`idxOf_pointers`).
-/

namespace DebugBridge

namespace Wire

/-- What stands inside a container that stands at a pointer, with its places; nothing when it is no
container. -/
def inside? (pointer : String) : Json → Option (List (String × Json))
  | .array values => some (itemPlaces pointer 0 values)
  | .object members =>
    match objectKind members with
    | .plain => some (memberPlaces pointer members)
    | _ => none
  | _ => none

/-- The marker of a reference is read as one. -/
theorem objectKind_marker (target : String) :
    objectKind [(refKey, .string target)] = .reference target := by
  simp [objectKind]

/-- What stands inside a container is its children, in order. -/
theorem map_snd_of_inside? {pointer : String} {v : Json} {inside : List (String × Json)}
    (h : inside? pointer v = some inside) : inside.map (·.2) = v.children := by
  cases v with
  | array values =>
    cases h
    exact map_snd_itemPlaces pointer 0 values
  | object members =>
    simp only [inside?] at h
    split at h <;> cases h
    exact map_snd_memberPlaces pointer members
  | null | bool _ | number _ | string _ => cases h

/-- The places inside a container are apart, unless an object has a key twice. -/
theorem apart_of_inside? {pointer : String} {v : Json} {inside : List (String × Json)}
    (h : inside? pointer v = some inside) (hv : v.DistinctKeys) :
    Apart pointer (inside.map (·.1)) := by
  cases v with
  | array values =>
    cases h
    exact apart_itemPlaces pointer 0 values
  | object members =>
    simp only [inside?] at h
    split at h <;> cases h
    exact apart_memberPlaces pointer (hv [] members (.here _))
  | null | bool _ | number _ | string _ => cases h

/-! ## The walks -/

/-- The pointers below the items are those below their places. -/
theorem pointersOfItems_eq (values : List Json) (pointer : String) (index : Nat) :
    pointersOfItems values pointer index =
      (itemPlaces pointer index values).flatMap fun c => pointers c.2 c.1 := by
  induction values generalizing index with
  | nil => rfl
  | cons v rest ih => simp [pointersOfItems, itemPlaces, ih]

/-- The pointers below the members are those below their places. -/
theorem pointersOfMembers_eq (members : List (String × Json)) (pointer : String) :
    pointersOfMembers members pointer =
      (memberPlaces pointer members).flatMap fun c => pointers c.2 c.1 := by
  induction members with
  | nil => rfl
  | cons m rest ih => simpa [pointersOfMembers, memberPlaces] using ih

/-- The pointers of the containers in a tree: its own before those of the containers inside it. -/
theorem pointers_eq (v : Json) (pointer : String) :
    pointers v pointer =
      match inside? pointer v with
      | some inside => pointer :: inside.flatMap fun c => pointers c.2 c.1
      | none => [] := by
  cases v with
  | array values => simp [pointers, inside?, pointersOfItems_eq]
  | object members =>
    simp only [pointers, inside?]
    split <;> simp_all [pointersOfMembers_eq]
  | null | bool _ | number _ | string _ => rfl

/-- The containers among the items, counted one item after the other. -/
theorem containersOfItems_eq (values : List Json) :
    containersOfItems values = (values.map containers).sum := by
  induction values with
  | nil => rfl
  | cons v rest ih => simp [containersOfItems, ih]

/-- The containers among the members, counted one member after the other. -/
theorem containersOfMembers_eq (members : List (String × Json)) :
    containersOfMembers members = ((members.map (·.2)).map containers).sum := by
  induction members with
  | nil => rfl
  | cons m rest ih => simp [containersOfMembers, ih]

/-- **A container counts itself and those inside it**; what has no inside counts none. -/
theorem containers_eq (v : Json) (pointer : String) :
    containers v =
      match inside? pointer v with
      | some inside => ((inside.map (·.2)).map containers).sum + 1
      | none => 0 := by
  cases v with
  | array values => simp only [containers, inside?, containersOfItems_eq, map_snd_itemPlaces]
  | object members =>
    simp only [containers, inside?, containersOfMembers_eq]
    split <;> simp_all
  | null | bool _ | number _ | string _ => rfl

/-- The targets among the items, in order. -/
theorem targetsOfItems_eq (values : List Json) :
    targetsOfItems values = values.flatMap targets := by
  induction values with
  | nil => rfl
  | cons v rest ih => simp [targetsOfItems, ih]

/-- The targets among the members, in order. -/
theorem targetsOfMembers_eq (members : List (String × Json)) :
    targetsOfMembers members = (members.map (·.2)).flatMap targets := by
  induction members with
  | nil => rfl
  | cons m rest ih => simp [targetsOfMembers, ih]

/-- A container has the targets of what stands inside it. -/
theorem targets_of_inside? {pointer : String} {v : Json} {inside : List (String × Json)}
    (h : inside? pointer v = some inside) : targets v = (inside.map (·.2)).flatMap targets := by
  cases v with
  | array values =>
    cases h
    simp only [targets, targetsOfItems_eq, map_snd_itemPlaces]
  | object members =>
    simp only [inside?] at h
    split at h <;> cases h
    simp only [targets, ‹objectKind members = _›, targetsOfMembers_eq, map_snd_memberPlaces]
  | null | bool _ | number _ | string _ => cases h

/-- A reference marker has its own target and no container. -/
theorem targets_of_target? {v : Json} {target : String} (h : target? v = some target)
    (pointer : String) : targets v = [target] ∧ pointers v pointer = [] := by
  cases v with
  | object members =>
    simp only [target?] at h
    split at h <;> cases h
    simp [targets, pointers, ‹objectKind members = _›]
  | null | bool _ | number _ | string _ | array _ => cases h

/-- The first malformed marker among the items, with its place. -/
theorem malformedItemAt?_eq (values : List Json) (pointer : String) (index : Nat) :
    malformedItemAt? values pointer index =
      (itemPlaces pointer index values).findSome? fun c => malformedAt? c.2 c.1 := by
  induction values generalizing index with
  | nil => rfl
  | cons v rest ih =>
    rw [malformedItemAt?, itemPlaces, List.findSome?_cons, ih]
    cases malformedAt? v (itemAt pointer index) <;> rfl

/-- The first malformed marker among the members, with its place. -/
theorem malformedMemberAt?_eq (members : List (String × Json)) (pointer : String) :
    malformedMemberAt? members pointer =
      (memberPlaces pointer members).findSome? fun c => malformedAt? c.2 c.1 := by
  induction members with
  | nil => rfl
  | cons m rest ih =>
    rw [malformedMemberAt?, memberPlaces, List.map_cons, List.findSome?_cons, ih, memberPlaces]
    cases malformedAt? m.2 (memberAt pointer m.1) <;> rfl

/-- A container has the first malformed marker of what stands inside it. -/
theorem malformedAt?_of_inside? {pointer : String} {v : Json} {inside : List (String × Json)}
    (h : inside? pointer v = some inside) :
    malformedAt? v pointer = inside.findSome? fun c => malformedAt? c.2 c.1 := by
  cases v with
  | array values =>
    cases h
    exact malformedItemAt?_eq values pointer 0
  | object members =>
    simp only [inside?] at h
    split at h <;> cases h
    simp only [malformedAt?, ‹objectKind members = _›]
    exact malformedMemberAt?_eq members pointer
  | null | bool _ | number _ | string _ => cases h

/-- Members have the nodes that their values would have as items. -/
theorem nodesOfMembers_eq (resolve : String → NodeId) (start : NodeId)
    (members : List (String × Json)) :
    nodesOfMembers resolve start members = nodesOfItems resolve start (members.map (·.2)) := by
  induction members generalizing start with
  | nil => rfl
  | cons m rest ih => simp [nodesOfMembers, nodesOfItems, ih]

/-! ## Slots and nodes, one value after the other -/

/-- Slots of values one after the other: the later ones are numbered on from the containers of the
earlier. -/
theorem slots_append (resolve : String → NodeId) (start : NodeId) (first second : List Json) :
    slots resolve start (first ++ second) =
      slots resolve start first ++ slots resolve (start + containersOfItems first) second := by
  induction first generalizing start with
  | nil => simp [slots, containersOfItems]
  | cons v rest ih => simp [slots, containersOfItems, ih, Nat.add_assoc]

/-- Nodes of values one after the other: the later ones are numbered on from the containers of the
earlier. -/
theorem nodesOfItems_append (resolve : String → NodeId) (start : NodeId)
    (first second : List Json) :
    nodesOfItems resolve start (first ++ second) =
      nodesOfItems resolve start first ++
        nodesOfItems resolve (start + containersOfItems first) second := by
  induction first generalizing start with
  | nil => simp [nodesOfItems, containersOfItems]
  | cons v rest ih => simp [nodesOfItems, containersOfItems, ih, Nat.add_assoc]

/-- **Every member has one slot**, under its key without the escape: the references after all
others. -/
theorem memberSlots_perm (resolve : String → NodeId) (start : NodeId)
    (members : List (String × Json)) :
    (memberSlots resolve false start members ++ memberSlots resolve true start members).Perm
      (((members.map (·.1)).map unescapeKey).zip (slots resolve start (members.map (·.2)))) := by
  induction members generalizing start with
  | nil => simp [memberSlots]
  | cons m rest ih =>
    obtain ⟨key, value⟩ := m
    have ih' := ih (start + containers value)
    simp only [memberSlots, List.map_cons, slots, List.zip_cons_cons]
    cases (target? value).isSome with
    | false => simpa using ih'
    | true => simpa using List.perm_middle.trans (ih'.cons _)

/-- There is a slot for every value. -/
theorem length_slots (resolve : String → NodeId) (start : NodeId) (values : List Json) :
    (slots resolve start values).length = values.length := by
  induction values generalizing start with
  | nil => rfl
  | cons v rest ih => simp [slots, ih]

/-! ## Pointers in document order -/

/-- **The pointers of the containers in a tree are all different**, and all below the pointer of the
tree. -/
theorem nodup_pointers {v : Json} (hv : v.DistinctKeys) (pointer : String) :
    (pointers v pointer).Nodup ∧ ∀ place ∈ pointers v pointer, Below pointer place := by
  induction v using Json.inductionOn generalizing pointer with
  | h v ih =>
    rw [pointers_eq]
    split
    · next inside h =>
      have apart := apart_of_inside? h hv
      have child {c : String × Json} (hc : c ∈ inside) : c.2 ∈ v.children :=
        map_snd_of_inside? h ▸ List.mem_map_of_mem hc
      have ihc {c : String × Json} (hc : c ∈ inside) :=
        ih c.2 (child hc) (hv.children (child hc)) c.1
      have below {c : String × Json} (hc : c ∈ inside) {place : String}
          (hplace : place ∈ pointers c.2 c.1) : place ≠ pointer ∧ Below pointer place := by
        obtain ⟨next, hnext⟩ := apart.steps c.1 (List.mem_map_of_mem hc)
        have hbelow := hnext ▸ (ihc hc).2 place hplace
        exact ⟨ne_of_below_step hbelow, hbelow.of_step⟩
      constructor
      · refine List.nodup_cons.2 ⟨fun hmem => ?_, List.nodup_flatMap.2 ⟨fun c hc => (ihc hc).1, ?_⟩⟩
        · obtain ⟨c, hc, hplace⟩ := List.mem_flatMap.1 hmem
          exact (below hc hplace).1 rfl
        · refine (List.pairwise_map.1 apart.disjoint).imp_of_mem fun {c d} hc hd hcd => ?_
          exact fun place hplace hplace' =>
            hcd place ((ihc hc).2 place hplace) ((ihc hd).2 place hplace')
      · intro place hmem
        rcases List.mem_cons.1 hmem with rfl | hmem
        · exact below_refl place
        · obtain ⟨c, hc, hplace⟩ := List.mem_flatMap.1 hmem
          exact (below hc hplace).2
    · simp

/-- The pointer of a container finds its number. -/
theorem idxOf_pointers {v : Json} (hv : v.DistinctKeys) {pointer place : String} {k : Nat}
    (h : (pointers v pointer)[k]? = some place) : (pointers v pointer).idxOf place = k := by
  obtain ⟨hk, rfl⟩ := List.getElem?_eq_some_iff.1 h
  exact (nodup_pointers hv pointer).1.idxOf_getElem k hk

/-- There is a pointer for every container. -/
theorem length_pointers (v : Json) (pointer : String) :
    (pointers v pointer).length = containers v := by
  induction v using Json.inductionOn generalizing pointer with
  | h v ih =>
    rw [pointers_eq, containers_eq v pointer]
    split
    · next inside h =>
      rw [List.length_cons, List.length_flatMap, List.map_map]
      refine congrArg (· + 1) (congrArg List.sum (List.map_congr_left fun c hc => ?_))
      exact ih c.2 (map_snd_of_inside? h ▸ List.mem_map_of_mem hc) c.1
    · rfl

end Wire

/-! ## Reading -/

namespace Content

open Wire

/-- **What reading comes to** when every marker is well-formed, the root is no marker and every
reference finds its container. -/
theorem decode_eq_ok {v : Json} (hmarkers : malformedAt? v "" = none) (hroot : target? v = none)
    (htargets : ∀ target ∈ targets v, target ∈ pointers v "") :
    decode v = .ok ⟨(Wire.nodes (pointers v "").idxOf 0 v).toArray,
      slot (pointers v "").idxOf 0 v⟩ := by
  have hfind : (targets v).find? (fun target => !(pointers v "").contains target) = none := by
    rw [List.find?_eq_none]
    intro target h
    simpa using htargets target h
  simp only [decode, hmarkers, hroot, hfind]
  rfl

end Content

end DebugBridge

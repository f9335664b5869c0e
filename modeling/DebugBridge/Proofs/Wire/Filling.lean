import DebugBridge.Proofs.Wire.Building
import DebugBridge.Wire.Patching

/-!
# Proofs/Wire/Filling — the slots of a container, one after the other

The walk that leaves patches behind fills the slots of a container from left to right, while the
nodes of the containers inside it come behind it. What it has made is a draft that is extended by
some nodes, the first of which is filled (`Draft.extend`). One slot more is one step
(`Entry.exists_extend`), and the container is as many steps as it has slots (`exists_extend`).

The patches are applied much later, when other patches have been at work. So what they do is said of
any nodes in the place of those that the walk has left (`Fills`):

```
  before ++ drafts ++ after   ──patches──▸   before ++ nodes ++ after
```
-/

namespace DebugBridge

open Wire

/-! ## Nodes that are filled slot by slot -/

namespace Node

/-- A container with its next slot filled. -/
def fill : Node → SlotName → Item → Node
  | .array items, .item _, x => .array (items ++ [x])
  | .object members, .member key, x => .object (members.insert key x)
  | n, _, _ => n

/-- A container with a slot filled again. -/
def refill : Node → SlotName → Item → Node
  | .array items, .item index, x => .array (items.set index x)
  | .object members, .member key, x => .object (members.insert key x)
  | n, _, _ => n

end Node

namespace Content

variable (before : Array Node) (n : Node) (after : List Node) (root : Item) (slot : SlotName)
  (x : Item)

/-- Filling a slot changes the node that it belongs to, whatever is around it. -/
theorem fillSlot_middle :
    fillSlot ⟨before ++ (n :: after).toArray, root⟩ before.size slot x =
      ⟨before ++ (n.fill slot x :: after).toArray, root⟩ := by
  cases slot <;> cases n <;> simp [fillSlot, push?, insert?, Node.fill]

/-- Nor does it matter to filling a slot again what is around the node. -/
theorem refillSlot_middle :
    refillSlot ⟨before ++ (n :: after).toArray, root⟩ before.size slot x =
      ⟨before ++ (n.refill slot x :: after).toArray, root⟩ := by
  cases slot with
  | member key => cases n <;> simp [refillSlot, insert?, Node.refill]
  | item index =>
    cases n with
    | object members => simp [refillSlot, replaceAt?, Node.refill]
    | array items =>
      by_cases h : index < items.length
      · simp [refillSlot, replaceAt?, Node.refill, h]
      · simp [refillSlot, replaceAt?, Node.refill, h,
          List.set_eq_of_length_le (Nat.le_of_not_lt h)]

end Content

/-! ## Patches -/

namespace Wire

/-- What patches make of a graph, when every reference finds its container. -/
def applyAll (resolve : String → NodeId) (patches : List Patch) (c : Content) : Content :=
  patches.foldl (fun c p => c.refillSlot p.parent p.slot (.node (resolve p.target))) c

/-- **Whether patches make nodes of drafts** that are the nodes of a graph from a number on,
whatever is before and behind them. -/
def Fills (resolve : String → NodeId) (start : NodeId) (patches : List Patch)
    (drafts nodes : List Node) : Prop :=
  ∀ (before : Array Node) (after : List Node) (root : Item), before.size = start →
    applyAll resolve patches ⟨before ++ (drafts ++ after).toArray, root⟩ =
      ⟨before ++ (nodes ++ after).toArray, root⟩

namespace Fills

variable {resolve : String → NodeId} {start : NodeId} {patches later : List Patch}
  {drafts mid nodes : List Node}

theorem refl (nodes : List Node) : Fills resolve start [] nodes nodes :=
  fun _ _ _ _ => rfl

/-- Patches go on where others have ended. -/
theorem trans (h : Fills resolve start patches drafts mid)
    (h' : Fills resolve start later mid nodes) :
    Fills resolve start (patches ++ later) drafts nodes := by
  intro before after root hsize
  rw [applyAll, List.foldl_append]
  exact (congrArg (applyAll resolve later) (h before after root hsize)).trans
    (h' before after root hsize)

/-- The nodes around those that are filled stay as they are. -/
theorem frame (first last : List Node)
    (h : Fills resolve (start + first.length) patches drafts nodes) :
    Fills resolve start patches (first ++ (drafts ++ last)) (first ++ (nodes ++ last)) := by
  intro before after root hsize
  have hframe := h (before ++ first.toArray) (last ++ after) root (by simp [hsize])
  simpa [Array.append_assoc] using hframe

/-- A patch for a slot of the first node. -/
theorem patch (n : Node) (rest : List Node) (slot : SlotName) (target : String) :
    Fills resolve start [⟨start, slot, target⟩] (n :: rest)
      (n.refill slot (.node (resolve target)) :: rest) := by
  rintro before after root rfl
  exact Content.refillSlot_middle before n (rest ++ after) root slot _

end Fills

end Wire

/-! ## What a value is read as -/

namespace Wire

variable {v : Json} {pointer target : String}

/-- What the walk makes of a value whose containers have numbers from `start` on. -/
def readingOf (start : NodeId) (v : Json) : Reading :=
  match target? v with
  | some target => .reference target
  | none => .slot (slot (fun _ => start) start v)

/-- The slot of a reference has the link to what it finds. -/
theorem slot_of_target? (h : target? v = some target) (resolve : String → NodeId)
    (start : NodeId) : slot resolve start v = .node (resolve target) := by
  rw [target?_eq_some_iff.1 h, slot_marker]

/-- The slot of a value that is no reference does not depend on what references find. -/
theorem slot_of_target?_eq_none (h : target? v = none) (resolve resolve' : String → NodeId)
    (start : NodeId) : slot resolve start v = slot resolve' start v := by
  cases v with
  | object members =>
    simp only [target?] at h
    simp only [slot]
    split at h
    · cases h
    · rfl
  | null | bool _ | number _ | string _ | array _ => rfl

/-- The slot of a value that is no reference is filled for good. -/
theorem draft_readingOf (h : target? v = none) (resolve : String → NodeId) (start : NodeId) :
    (readingOf start v).draft = slot resolve start v := by
  rw [readingOf, h]
  exact slot_of_target?_eq_none h _ _ start

/-- A container is read as the link to its node. -/
theorem readingOf_of_inside? {inside : List (String × Json)}
    (h : inside? pointer v = some inside) (start : NodeId) :
    readingOf start v = .slot (.node start) := by
  rw [readingOf, target?_of_inside? h]
  exact congrArg Reading.slot (slot_of_inside? h _ start)

/-- **A draft with more nodes**, their pointers and more patches. -/
def Draft.extend (d : Draft) (nodes : List Node) (places : List String) (patches : List Patch) :
    Draft where
  content := ⟨d.content.nodes ++ nodes.toArray, d.content.root⟩
  numbers := (places.zipIdx d.content.nodes.size).foldl (fun m e => m.insert e.1 e.2) d.numbers
  patches := d.patches ++ patches

namespace Draft

variable {d : Draft} {nodes later : List Node} {places more : List String}
  {patches others : List Patch}

theorem extend_nil (d : Draft) : d.extend [] [] [] = d := by
  simp [extend]

/-- Two extensions in a row are one, if the first has a pointer for each node. -/
theorem extend_extend (h : places.length = nodes.length) :
    (d.extend nodes places patches).extend later more others =
      d.extend (nodes ++ later) (places ++ more) (patches ++ others) := by
  simp [extend, List.zipIdx_append, h]

/-- A new container is one node more. -/
theorem alloc_eq_extend (d : Draft) (pointer : String) (node : Node) :
    d.alloc pointer node = (d.extend [node] [pointer] [], d.content.nodes.size) := by
  simp [alloc, extend, Content.alloc]

/-- What is read for a slot is put into the node that the slot belongs to. -/
theorem put_extend (d : Draft) (n : Node) (nodes : List Node) (places : List String)
    (patches : List Patch) (slot : SlotName) (reading : Reading) :
    (d.extend (n :: nodes) places patches).put d.content.nodes.size slot reading =
      d.extend (n.fill slot reading.draft :: nodes) places
        (patches ++ reading.patches d.content.nodes.size slot) := by
  simp [put, extend, Content.fillSlot_middle]

end Draft

/-- **What reading a value comes to**: the first malformed marker is an error, and otherwise the
draft has what the value adds to it. A marker adds nothing, as its patch is for the slot that it is
in. -/
structure Reads (v : Json) (pointer : String) (d : Draft) : Prop where
  malformed : ∀ place, malformedAt? v pointer = some place →
    read v pointer d = .error (.malformedReference place)
  formed : malformedAt? v pointer = none → ∃ drafts patches,
    read v pointer d = .ok (readingOf d.content.nodes.size v,
      d.extend drafts (pointers v pointer) patches) ∧
    drafts.length = containers v ∧
    patches.map (·.target) ++ (target? v).toList = targets v ∧
    ∀ resolve, Fills resolve d.content.nodes.size patches drafts
      (nodes resolve d.content.nodes.size v)

/-! ## The slots of a container -/

/-- A value inside a container, with its slot and its place. -/
structure Entry where
  slot : SlotName
  place : String
  value : Json

namespace Entry

/-- Reads a value inside the container with number `parent`. -/
def read (e : Entry) (parent : NodeId) (d : Draft) : Except WireError Draft := do
  let (reading, d) ← Wire.read e.value e.place d
  return d.put parent e.slot reading

/-- A node with the slot of an entry filled, whose containers have numbers from `start` on. -/
def fill (e : Entry) (start : NodeId) (n : Node) : Node :=
  n.fill e.slot (readingOf start e.value).draft

/-- A node with the link in the slot of an entry that is a reference. -/
def refill (e : Entry) (resolve : String → NodeId) (n : Node) : Node :=
  match target? e.value with
  | some target => n.refill e.slot (.node (resolve target))
  | none => n

end Entry

/-- A node with the slots of its entries filled, whose containers have numbers from `start` on. -/
def fillAll : (start : NodeId) → List Entry → Node → Node
  | _, [], n => n
  | start, e :: rest, n => fillAll (start + containers e.value) rest (e.fill start n)

/-- A node with the links in the slots of the references. -/
def refillAll (resolve : String → NodeId) (entries : List Entry) (n : Node) : Node :=
  entries.foldl (fun n e => e.refill resolve n) n

section

variable {d : Draft} {e : Entry} {n : Node} {inner : List Node} {places : List String} {start : Nat}

/-- The patch that a slot leaves is for its reference. -/
theorem map_target_patches (parent : NodeId) (slot : SlotName) (start : NodeId) (v : Json) :
    ((readingOf start v).patches parent slot).map (·.target) = (target? v).toList := by
  rw [readingOf]
  cases target? v <;> rfl

/-- What a slot leaves for later puts the link in, and for a slot that is filled there is nothing to
do. -/
theorem fills_reading (resolve : String → NodeId) (start parent : NodeId) (n : Node)
    (rest : List Node) (e : Entry) :
    Fills resolve parent ((readingOf start e.value).patches parent e.slot) (n :: rest)
      (e.refill resolve n :: rest) := by
  rw [readingOf, Entry.refill]
  cases target? e.value with
  | none => exact .refl _
  | some target => exact .patch n rest e.slot target

/-- **A slot is filled**, while the nodes of the containers in it come behind those that are there.
Its patches fill these nodes, and the slot if that is left for later. -/
theorem Entry.exists_extend (h : ∀ d, Reads e.value e.place d)
    (formed : malformedAt? e.value e.place = none) (hplaces : places.length = inner.length + 1)
    (hstart : start = d.content.nodes.size + 1 + inner.length) (before : List Patch) :
    ∃ drafts patches,
      e.read d.content.nodes.size (d.extend (n :: inner) places before) =
        .ok (d.extend (e.fill start n :: (inner ++ drafts))
          (places ++ pointers e.value e.place) (before ++ patches)) ∧
      drafts.length = containers e.value ∧ patches.map (·.target) = targets e.value ∧
      ∀ resolve n' (inner' : List Node), inner'.length = inner.length →
        Fills resolve d.content.nodes.size patches (n' :: (inner' ++ drafts))
          (e.refill resolve n' :: (inner' ++ nodes resolve start e.value)) := by
  have hsize : (d.extend (n :: inner) places before).content.nodes.size = start := by
    simp only [Draft.extend, Array.size_append, List.size_toArray, List.length_cons]
    omega
  obtain ⟨drafts, patches, hread, hdrafts, htargets, hfills⟩ := (h _).formed formed
  rw [hsize] at hread hfills
  refine ⟨drafts, patches ++ (readingOf start e.value).patches d.content.nodes.size e.slot,
    ?read, hdrafts, ?targets, fun resolve n' inner' hinner => ?fills⟩
  case read =>
    rw [Entry.read, hread]
    simp only [bind, Except.bind, pure, Except.pure]
    rw [Draft.extend_extend hplaces, List.cons_append, Draft.put_extend, List.append_assoc]
    rfl
  case targets => rw [List.map_append, map_target_patches, htargets]
  case fills =>
    have hinside : Fills resolve (d.content.nodes.size + (n' :: inner').length) patches drafts
        (nodes resolve start e.value) := by
      have hnumber : d.content.nodes.size + (n' :: inner').length = start := by
        rw [List.length_cons]
        omega
      exact hnumber ▸ hfills resolve
    have hframe := hinside.frame (n' :: inner') []
    rw [List.append_nil, List.append_nil] at hframe
    exact hframe.trans (fills_reading resolve start _ n' _ e)

/-- **A container is filled slot by slot.** -/
theorem exists_extend {entries : List Entry} (h : ∀ e ∈ entries, ∀ d, Reads e.value e.place d)
    (formed : ∀ e ∈ entries, malformedAt? e.value e.place = none)
    (hplaces : places.length = inner.length + 1)
    (hstart : start = d.content.nodes.size + 1 + inner.length) (before : List Patch) :
    ∃ drafts patches,
      entries.foldlM (fun d' e => e.read d.content.nodes.size d')
          (d.extend (n :: inner) places before) =
        .ok (d.extend (fillAll start entries n :: (inner ++ drafts))
          (places ++ entries.flatMap fun e => pointers e.value e.place) (before ++ patches)) ∧
      drafts.length = containersOfItems (entries.map (·.value)) ∧
      patches.map (·.target) = (entries.map (·.value)).flatMap targets ∧
      ∀ resolve n' (inner' : List Node), inner'.length = inner.length →
        Fills resolve d.content.nodes.size patches (n' :: (inner' ++ drafts))
          (refillAll resolve entries n' ::
            (inner' ++ nodesOfItems resolve start (entries.map (·.value)))) := by
  induction entries generalizing n inner places before start with
  | nil => exact ⟨[], [], by simp [fillAll]; rfl, rfl, rfl, fun _ n' inner' _ => .refl _⟩
  | cons e rest ih =>
    obtain ⟨he, hrest⟩ := List.forall_mem_cons.1 h
    obtain ⟨hformed, hlater⟩ := List.forall_mem_cons.1 formed
    obtain ⟨drafts, patches, hread, hdrafts, htargets, hfills⟩ :=
      e.exists_extend (n := n) he hformed hplaces hstart before
    have hpointers : (pointers e.value e.place).length = containers e.value :=
      length_pointers e.value e.place
    have hplaces' : (places ++ pointers e.value e.place).length = (inner ++ drafts).length + 1 := by
      rw [List.length_append, List.length_append]
      omega
    have hstart' : start + containers e.value =
        d.content.nodes.size + 1 + (inner ++ drafts).length := by
      rw [List.length_append]
      omega
    obtain ⟨drafts', patches', hfold, hdrafts', htargets', hfills'⟩ :=
      ih (n := e.fill start n) hrest hlater hplaces' hstart' (before ++ patches)
    refine ⟨drafts ++ drafts', patches ++ patches', ?fold, ?length, ?targets,
      fun resolve n' inner' hinner => ?fills⟩
    case fold =>
      rw [List.foldlM_cons, hread]
      refine hfold.trans ?_
      simp [fillAll]
    case length => simp [containersOfItems, hdrafts, hdrafts']
    case targets => simp [htargets, htargets']
    case fills =>
      -- the patches of the first slot come first, with the nodes of the others behind theirs
      have hlength : (inner' ++ nodes resolve start e.value).length = (inner ++ drafts).length := by
        rw [List.length_append, List.length_append, length_nodes, hinner, hdrafts]
      have hfirst := (hfills resolve n' inner' hinner).frame [] drafts'
      have hsecond := hfills' resolve (e.refill resolve n') _ hlength
      simp only [List.nil_append, List.cons_append, List.append_assoc] at hfirst hsecond
      exact hfirst.trans hsecond

/-- The first malformed marker inside a container is the error that it is read as. -/
theorem foldlM_malformed {entries : List Entry} (h : ∀ e ∈ entries, ∀ d, Reads e.value e.place d)
    {place : String}
    (found : entries.findSome? (fun e => malformedAt? e.value e.place) = some place)
    (hplaces : places.length = inner.length + 1) (before : List Patch) :
    entries.foldlM (fun d' e => e.read d.content.nodes.size d')
        (d.extend (n :: inner) places before) =
      .error (.malformedReference place) := by
  induction entries generalizing n inner places before with
  | nil => cases found
  | cons e rest ih =>
    obtain ⟨he, hrest⟩ := List.forall_mem_cons.1 h
    rw [List.findSome?_cons] at found
    rw [List.foldlM_cons]
    cases hmalformed : malformedAt? e.value e.place with
    | some first =>
      rw [hmalformed] at found
      obtain rfl := Option.some.inj found
      rw [Entry.read, (he _).malformed _ hmalformed]
      rfl
    | none =>
      rw [hmalformed] at found
      obtain ⟨drafts, patches, hread, hdrafts, -, -⟩ :=
        e.exists_extend (n := n) he hmalformed hplaces rfl before
      have hpointers : (pointers e.value e.place).length = containers e.value :=
        length_pointers e.value e.place
      rw [hread]
      refine ih hrest found ?_ _
      rw [List.length_append, List.length_append]
      omega

/-- **What holds of the values inside a container holds of it**, if it is read as its entries
are. -/
theorem reads_of_entries {v : Json} {pointer : String} {entries : List Entry} (empty : Node)
    (hinside : inside? pointer v = some (entries.map fun e => (e.place, e.value)))
    (h : ∀ w ∈ v.children, ∀ pointer d, Reads w pointer d)
    (hread : read v pointer d = (entries.foldlM
      (fun (d' : Draft) (e : Entry) => e.read d.content.nodes.size d')
      (d.extend [empty] [pointer] [])).map fun d' => (.slot (.node d.content.nodes.size), d'))
    (hnodes : ∀ resolve start, nodes resolve start v =
      refillAll resolve entries (fillAll (start + 1) entries empty) ::
        nodesOfItems resolve (start + 1) v.children) : Reads v pointer d := by
  have hchildren : entries.map (·.value) = v.children := by
    rw [← map_snd_of_inside? hinside, List.map_map]
    rfl
  have hvalues : ∀ e ∈ entries, ∀ d, Reads e.value e.place d := fun e he d =>
    h e.value (hchildren ▸ List.mem_map_of_mem he) e.place d
  have hfound : malformedAt? v pointer =
      entries.findSome? fun e => malformedAt? e.value e.place := by
    rw [malformedAt?_of_inside? hinside, List.findSome?_map]
    rfl
  have hpointers : pointers v pointer =
      [pointer] ++ entries.flatMap fun e => pointers e.value e.place := by
    rw [pointers_eq, hinside]
    simp [List.flatMap_map]
  constructor
  case malformed =>
    intro place hplace
    rw [hread, foldlM_malformed hvalues (hfound ▸ hplace) rfl []]
    rfl
  case formed =>
    intro hnone
    have hformed : ∀ e ∈ entries, malformedAt? e.value e.place = none :=
      List.findSome?_eq_none_iff.1 (hfound ▸ hnone)
    have hplaces : [pointer].length = ([] : List Node).length + 1 := rfl
    obtain ⟨drafts, patches, hfold, hdrafts, htargets, hfills⟩ :=
      exists_extend (d := d) (n := empty) hvalues hformed hplaces rfl []
    refine ⟨fillAll (d.content.nodes.size + 1) entries empty :: drafts, patches, ?_, ?_, ?_, ?_⟩
    · rw [hread, hfold, hpointers, readingOf_of_inside? hinside]
      rfl
    · rw [List.length_cons, hdrafts, hchildren, containers_of_inside? hinside]
    · rw [htargets, hchildren, target?_of_inside? hinside, targets_of_inside? hinside,
        map_snd_of_inside? hinside]
      exact List.append_nil _
    · intro resolve
      rw [hnodes, ← hchildren]
      exact hfills resolve _ [] rfl

end

end Wire

end DebugBridge

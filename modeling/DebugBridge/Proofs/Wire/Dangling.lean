import DebugBridge.Proofs.Content.Comparing
import DebugBridge.Proofs.Content.Dangling
import DebugBridge.Proofs.Wire.Unlimited

/-!
# Proofs/Wire/Dangling — what is written for a link that dangles

A link to a number that no node has is written as null the first time. The writer remembers the
place all the same, so the second such link becomes a reference to a place where there is no
container, and the reader refuses the tree. How often a number is met is counted here without
looking at the order of the walk: along a walk, what has been met and what is left never grows
together (`Writes.met_add_le`), and if it shrinks, then by a reference (`Writes.exists_marker`).

```
  met before + links in the slots + links left before  =  met after + links left after + references
```

If it never shrinks, the walk goes as in the graph with null in place of these links
(`Writes.filled`). So **what is written is read exactly if no such number is linked twice**
(`Content.decode_dangling`).
-/

namespace DebugBridge

namespace Wire

open Content

variable {c : Content} {places rest : List (String × Item)} {seen seen' : Seen}
  {values : List Json} {m id : NodeId} {n : Node} {pointer : String}

/-! ## What has been met, and what is left -/

/-- Whether a number has been met, as a count. -/
def met (seen : Seen) (m : NodeId) : Nat :=
  if seen[m]?.isSome then 1 else 0

/-- How many links to `m` the nodes hold that have not been entered. -/
def linksLeft (c : Content) (m : NodeId) (seen : Seen) : Nat :=
  ∑ id ∈ (Finset.range c.nodes.size).filter (seen.contains · = false), c.links m id

theorem met_of_none (h : seen[m]? = none) : met seen m = 0 := by
  simp [met, h]

theorem met_of_some (h : seen[m]? = some pointer) : met seen m = 1 := by
  simp [met, h]

theorem met_le_one (seen : Seen) (m : NodeId) : met seen m ≤ 1 := by
  unfold met
  split <;> omega

theorem met_insert_of_ne (h : id ≠ m) (seen : Seen) (pointer : String) :
    met (seen.insert id pointer) m = met seen m := by
  rw [met, met, getElem?_insert_of_ne h]

/-- A number without a node takes nothing away from what is left. -/
theorem linksLeft_insert_of_none (h : c.node? id = none) (m : NodeId) (seen : Seen)
    (pointer : String) : linksLeft c m (seen.insert id pointer) = linksLeft c m seen := by
  have hout : id ∉ (Finset.range c.nodes.size).filter (seen.contains · = false) := by
    have : c.nodes.size ≤ id := Array.getElem?_eq_none_iff.1 h
    simp [this]
  rw [linksLeft, filter_insert, Finset.erase_eq_of_notMem hout, linksLeft]

/-- A node that is entered takes away its own links. -/
theorem linksLeft_insert (h : c.node? id = some n) (new : seen[id]? = none) (m : NodeId)
    (pointer : String) :
    n.items.count (.node m) + linksLeft c m (seen.insert id pointer) = linksLeft c m seen := by
  have hfree : ¬seen.contains id := by simp [← Std.HashMap.isSome_getElem?_eq_contains, new]
  rw [← links_of_some h]
  exact add_sum_insert h hfree pointer (c.links m)

theorem count_cons_node (place : String) (id m : NodeId) (rest : List (String × Item)) :
    (((place, Item.node id) :: rest).map (·.2)).count (.node m) =
      (rest.map (·.2)).count (.node m) + if id = m then 1 else 0 := by
  simp [List.count_cons]

theorem count_cons_scalar {x : Item} (h : x.IsScalar) (place : String) (m : NodeId)
    (rest : List (String × Item)) :
    (((place, x) :: rest).map (·.2)).count (.node m) = (rest.map (·.2)).count (.node m) := by
  simp [h m]

/-- **What has been met and what is left do not grow along a walk.** -/
theorem Writes.met_add_le (h : Writes c places seen values seen') (missing : c.node? m = none) :
    met seen' m + linksLeft c m seen' ≤
      met seen m + (places.map (·.2)).count (.node m) + linksLeft c m seen := by
  induction h with
  | nil => simp
  | scalar hx _ ih => rwa [count_cons_scalar hx]
  | again _ _ ih =>
    rw [count_cons_node]
    omega
  | @missing place id rest seen seen' values new none _ ih =>
    rw [linksLeft_insert_of_none none] at ih
    rw [count_cons_node]
    split
    · next heq =>
      subst heq
      have := met_le_one (seen.insert id place) id
      omega
    · next hne =>
      rw [met_insert_of_ne hne] at ih
      exact ih
  | @enter place id n rest seen seen' seen'' inside values new here hinside _ ihinside ih =>
    have hne : id ≠ m := fun heq => by simp [← heq, here] at missing
    rw [map_snd_slotPlaces, met_insert_of_ne hne] at ihinside
    have hown := linksLeft_insert here new m place
    rw [count_cons_node, if_neg hne]
    omega

/-- **A number that is met again leaves a reference to the place where it was met.** -/
theorem Writes.exists_marker (h : Writes c places seen values seen') (missing : c.node? m = none)
    (hlt : met seen' m + linksLeft c m seen' <
      met seen m + (places.map (·.2)).count (.node m) + linksLeft c m seen) :
    ∃ v ∈ values, ∃ path target, v.At path (marker target) ∧ seen'[m]? = some target := by
  induction h with
  | nil => simp at hlt
  | scalar hx _ ih =>
    rw [count_cons_scalar hx] at hlt
    obtain ⟨v, hv, hmarker⟩ := ih hlt
    exact ⟨v, List.mem_cons_of_mem _ hv, hmarker⟩
  | @again place target id rest seen seen' values known later ih =>
    by_cases heq : id = m
    · subst heq
      exact ⟨_, List.mem_cons_self, [], target, .here _, later.mono known⟩
    · rw [count_cons_node, if_neg heq] at hlt
      obtain ⟨v, hv, hmarker⟩ := ih hlt
      exact ⟨v, List.mem_cons_of_mem _ hv, hmarker⟩
  | @missing place id rest seen seen' values new none _ ih =>
    have hrest : met seen' m + linksLeft c m seen' < met (seen.insert id place) m +
        (rest.map (·.2)).count (.node m) + linksLeft c m (seen.insert id place) := by
      rw [linksLeft_insert_of_none none]
      rw [count_cons_node] at hlt
      by_cases heq : id = m
      · subst heq
        rw [if_pos rfl, met_of_none new] at hlt
        have hmet : met (seen.insert id place) id = 1 := met_of_some Std.HashMap.getElem?_insert_self
        omega
      · rw [met_insert_of_ne heq]
        rwa [if_neg heq] at hlt
    obtain ⟨v, hv, hmarker⟩ := ih hrest
    exact ⟨v, List.mem_cons_of_mem _ hv, hmarker⟩
  | @enter place id n rest seen seen' seen'' inside values new here hinside later ihinside ih =>
    have hne : id ≠ m := fun heq => by simp [← heq, here] at missing
    rw [map_snd_slotPlaces, met_insert_of_ne hne] at ihinside
    have hown := linksLeft_insert here new m place
    rw [count_cons_node, if_neg hne] at hlt
    by_cases hwithin : met seen' m + linksLeft c m seen' <
        met seen m + n.items.count (.node m) + linksLeft c m (seen.insert id place)
    · obtain ⟨v, hv, path, target, hat, htarget⟩ := ihinside hwithin
      obtain ⟨s, entry⟩ := Json.exists_entry_of_mem_children
        ((children_written hinside.length_items).symm ▸ hv)
      exact ⟨_, List.mem_cons_self, s :: path, target, .inside entry hat, later.mono htarget⟩
    · obtain ⟨v, hv, hmarker⟩ := ih (by omega)
      exact ⟨v, List.mem_cons_of_mem _ hv, hmarker⟩

/-- **The place where a number without a node was met first holds null.** -/
theorem Writes.exists_null (h : Writes c places seen values seen') (missing : c.node? m = none)
    (new : seen[m]? = none) (known : seen'[m]? = some pointer) :
    ∃ place v, (place, v) ∈ (places.map (·.1)).zip values ∧
      ∃ path, v.At path .null ∧ pointerFrom place path = pointer := by
  induction h with
  | nil => simp [new] at known
  | scalar _ _ ih | again _ _ ih =>
    obtain ⟨place, v, hv, hnull⟩ := ih new known
    exact ⟨place, v, List.mem_cons_of_mem _ hv, hnull⟩
  | @missing place id rest seen seen' values new' none later ih =>
    by_cases heq : id = m
    · subst heq
      have hplace := later.mono (Std.HashMap.getElem?_insert_self (k := id) (v := place))
      rw [known] at hplace
      obtain rfl := Option.some.inj hplace
      exact ⟨pointer, .null, List.mem_cons_self, [], .here _, rfl⟩
    · obtain ⟨place, v, hv, hnull⟩ := ih ((getElem?_insert_of_ne heq ..).trans new) known
      exact ⟨place, v, List.mem_cons_of_mem _ hv, hnull⟩
  | @enter place id n rest seen seen' seen'' inside values new' here hinside later ihinside ih =>
    have hne : id ≠ m := fun heq => by simp [← heq, here] at missing
    cases hwithin : seen'[m]? with
    | none =>
      obtain ⟨place, v, hv, hnull⟩ := ih hwithin known
      exact ⟨place, v, List.mem_cons_of_mem _ hv, hnull⟩
    | some pointer' =>
      obtain rfl := Option.some.inj ((later.mono hwithin).symm.trans known)
      obtain ⟨place', v, hv, path, hat, hpointer⟩ :=
        ihinside ((getElem?_insert_of_ne hne ..).trans new) hwithin
      have hplaces := inside?_written place n hinside.length_items
      obtain ⟨s, entry, rfl⟩ := (Json.mem_inside?_iff hplaces).1 hv
      exact ⟨place, _, List.mem_cons_self, s :: path, .inside entry hat, hpointer⟩

/-! ## Numbers within reach -/

/-- Whatever is met is within reach. -/
theorem Writes.reaches (h : Writes c places seen values seen')
    (hreach : WithinReach c (places.map (·.2))) (new : seen[id]? = none)
    (known : seen'[id]? = some pointer) : c.Reaches id := by
  induction h with
  | nil => simp [new] at known
  | scalar _ _ ih | again _ _ ih =>
    exact ih hreach.tail new known
  | @missing place j rest seen seen' values _ _ _ ih =>
    by_cases heq : j = id
    · exact heq ▸ hreach j List.mem_cons_self
    · exact ih hreach.tail ((getElem?_insert_of_ne heq ..).trans new) known
  | @enter place j n rest seen seen' seen'' inside values _ here _ later ihinside ih =>
    by_cases heq : j = id
    · exact heq ▸ hreach j List.mem_cons_self
    cases hwithin : seen'[id]? with
    | none => exact ih hreach.tail hwithin known
    | some pointer' =>
      obtain rfl := Option.some.inj ((later.mono hwithin).symm.trans known)
      exact ihinside (hreach.inside here place) ((getElem?_insert_of_ne heq ..).trans new) hwithin

/-- Every link in a slot is met. -/
theorem Writes.exists_known (h : Writes c places seen values seen')
    (link : .node id ∈ places.map (·.2)) : ∃ pointer, seen'[id]? = some pointer := by
  induction h with
  | nil => cases link
  | scalar hx _ ih =>
    rcases List.mem_cons.1 link with heq | link
    · exact absurd heq.symm (hx id)
    · exact ih link
  | again known later ih =>
    rcases List.mem_cons.1 link with heq | link
    · obtain rfl := Item.node.inj heq
      exact ⟨_, later.mono known⟩
    · exact ih link
  | @missing place j _ _ _ _ _ _ later ih =>
    rcases List.mem_cons.1 link with heq | link
    · obtain rfl := Item.node.inj heq
      exact ⟨place, later.mono (by simp)⟩
    · exact ih link
  | @enter place j _ _ _ _ _ _ _ _ _ hinside later _ ih =>
    rcases List.mem_cons.1 link with heq | link
    · obtain rfl := Item.node.inj heq
      exact ⟨place, later.mono (hinside.mono (by simp))⟩
    · exact ih link

/-- Every link of a node that is entered is met. -/
theorem Writes.exists_known_inside (h : Writes c places seen values seen') (new : seen[id]? = none)
    (known : seen'[id]? = some pointer) (here : c.node? id = some n) (link : .node m ∈ n.items) :
    ∃ pointer, seen'[m]? = some pointer := by
  induction h with
  | nil => simp [new] at known
  | scalar _ _ ih | again _ _ ih => exact ih new known
  | @missing place j rest seen seen' values _ none _ ih =>
    have hne : j ≠ id := fun heq => by simp [heq, here] at none
    exact ih ((getElem?_insert_of_ne hne ..).trans new) known
  | @enter place j n' rest seen seen' seen'' inside values _ here' hinside later ihinside ih =>
    by_cases heq : j = id
    · subst heq
      obtain rfl := Option.some.inj (here'.symm.trans here)
      obtain ⟨pointer, hpointer⟩ := hinside.exists_known (map_snd_slotPlaces place n' ▸ link)
      exact ⟨pointer, later.mono hpointer⟩
    cases hwithin : seen'[id]? with
    | none => exact ih hwithin known
    | some pointer' =>
      obtain rfl := Option.some.inj ((later.mono hwithin).symm.trans known)
      obtain ⟨pointer, hpointer⟩ :=
        ihinside ((getElem?_insert_of_ne heq ..).trans new) hwithin
      exact ⟨pointer, later.mono hpointer⟩

/-- **A walk from the root meets what is within reach, and nothing else.** -/
theorem Writes.known_iff (h : Writes c [(pointer, c.root)] ∅ values seen') :
    (∃ target, seen'[id]? = some target) ↔ c.Reaches id := by
  constructor
  · rintro ⟨target, known⟩
    exact h.reaches (withinReach_root c) (by simp) known
  · intro hid
    induction hid with
    | root hroot => exact h.exists_known (by simp [hroot])
    | step _ here link ih =>
      obtain ⟨target, known⟩ := ih
      exact h.exists_known_inside (by simp) known here link

/-! ## Walks without such references -/

theorem slotPlaces_fillNode (c : Content) (place : String) (n : Node) :
    slotPlaces place (c.fillNode n) = (slotPlaces place n).map fun p => (p.1, c.fill p.2) := by
  cases n with
  | array items =>
    simp only [slotPlaces, fillNode]
    generalize 0 = index
    induction items generalizing index with
    | nil => rfl
    | cons x items ih => simp [itemPlaces, ih]
  | object members => simp [slotPlaces, fillNode, memberPlaces, KeyMap.map]

theorem written_fillNode (c : Content) (n : Node) (values : List Json) :
    written (c.fillNode n) values = written n values := by
  cases n with
  | array items => rfl
  | object members => simp [written, fillNode, KeyMap.keys, KeyMap.map, Function.comp_def]

/-- The nodes have the same pointers, whatever has been noted of numbers without one. -/
def Agree (c : Content) (seen other : Seen) : Prop :=
  ∀ id, (c.node? id).isSome → other[id]? = seen[id]?

theorem Agree.insert {other : Seen} (h : Agree c seen other) (id : NodeId) (pointer : String) :
    Agree c (seen.insert id pointer) (other.insert id pointer) := by
  intro j hj
  simp only [Std.HashMap.getElem?_insert, h j hj]

theorem Agree.insert_left {other : Seen} (h : Agree c seen other) (none : c.node? id = none)
    (pointer : String) : Agree c (seen.insert id pointer) other := by
  intro j hj
  rw [getElem?_insert_of_ne, h j hj]
  rintro rfl
  simp [none] at hj

/-- **Where no number without a node is met again**, the graph with null in place of the links that
dangle is written in the same way. -/
theorem Writes.filled (h : Writes c places seen values seen')
    (once : ∀ m, c.node? m = none → met seen m + (places.map (·.2)).count (.node m) +
      linksLeft c m seen ≤ met seen' m + linksLeft c m seen')
    {other : Seen} (agree : Agree c seen other) :
    ∃ other', Agree c seen' other' ∧
      Writes c.filled (places.map fun p => (p.1, c.fill p.2)) other values other' := by
  induction h generalizing other with
  | nil => exact ⟨other, agree, .nil⟩
  | scalar hx _ ih =>
    obtain ⟨other', hagree, hlater⟩ := ih (fun m hm => by
      have := once m hm
      rwa [count_cons_scalar hx] at this) agree
    refine ⟨other', hagree, ?_⟩
    rw [List.map_cons, fill_scalar hx]
    exact .scalar hx hlater
  | @again place target id rest seen seen' values known later ih =>
    have hsome : (c.node? id).isSome := by
      by_contra hnone
      have hid : c.node? id = none := by simpa using hnone
      have hle := later.met_add_le hid
      have := once id hid
      rw [count_cons_node, if_pos rfl] at this
      omega
    obtain ⟨n, here⟩ := Option.isSome_iff_exists.1 hsome
    obtain ⟨other', hagree, hlater⟩ := ih (fun m hm => by
      have := once m hm
      rw [count_cons_node] at this
      omega) agree
    refine ⟨other', hagree, ?_⟩
    rw [List.map_cons, fill_some here]
    exact .again ((agree id hsome).trans known) hlater
  | @missing place id rest seen seen' values new none later ih =>
    obtain ⟨other', hagree, hlater⟩ := ih (fun m hm => by
      have := once m hm
      rw [count_cons_node] at this
      rw [linksLeft_insert_of_none none]
      by_cases heq : id = m
      · subst heq
        have hmet : met (seen.insert id place) id = 1 := met_of_some Std.HashMap.getElem?_insert_self
        rw [if_pos rfl, met_of_none new] at this
        omega
      · rw [met_insert_of_ne heq]
        omega) (agree.insert_left none place)
    refine ⟨other', hagree, ?_⟩
    rw [List.map_cons, fill_none none]
    exact .scalar (fun _ => nofun) hlater
  | @enter place id n rest seen seen' seen'' inside values new here hinside later ihinside ih =>
    have hpart (m : NodeId) (hm : c.node? m = none) :
        met (seen.insert id place) m + ((slotPlaces place n).map (·.2)).count (.node m) +
            linksLeft c m (seen.insert id place) ≤ met seen' m + linksLeft c m seen' ∧
          met seen' m + (rest.map (·.2)).count (.node m) + linksLeft c m seen' ≤
            met seen'' m + linksLeft c m seen'' := by
      have hne : id ≠ m := fun heq => by simp [← heq, here] at hm
      have hwithin := hinside.met_add_le hm
      have hrest := later.met_add_le hm
      have hown := linksLeft_insert here new m place
      have hall := once m hm
      rw [count_cons_node, if_neg hne] at hall
      rw [map_snd_slotPlaces, met_insert_of_ne hne] at hwithin ⊢
      omega
    obtain ⟨other', hagree, hwithin⟩ := ihinside (fun m hm => (hpart m hm).1) (agree.insert id place)
    obtain ⟨other'', hagree', hlater⟩ := ih (fun m hm => (hpart m hm).2) hagree
    have hsome : (c.node? id).isSome := by simp [here]
    rw [← slotPlaces_fillNode] at hwithin
    refine ⟨other'', hagree', ?_⟩
    rw [List.map_cons, fill_some here, ← written_fillNode c]
    exact .enter ((agree id hsome).trans new) (by rw [node?_filled, here]; rfl) hwithin hlater

/-! ## What every walk writes -/

theorem Writes.ordered (h : Writes c places seen values seen') : ∀ v ∈ values, v.Ordered := by
  induction h with
  | nil => exact List.forall_mem_nil _
  | @scalar place x _ _ _ _ _ _ ih =>
    exact List.forall_mem_cons.2 ⟨by cases x <;> simp [scalarValue, Json.Ordered], ih⟩
  | again _ _ ih =>
    exact List.forall_mem_cons.2 ⟨by simp [marker, Json.Ordered, Json.OrderedMembers], ih⟩
  | missing _ _ _ ih => exact List.forall_mem_cons.2 ⟨by simp [Json.Ordered], ih⟩
  | enter _ _ hinside _ ihinside ih =>
    exact List.forall_mem_cons.2 ⟨ordered_written hinside.length_items ihinside, ih⟩

end Wire

namespace Json

open Wire

theorem formed_scalarValue (x : Item) : (scalarValue x).Formed := by
  refine forall_objects (fun members heq => ?_) fun w hw => ?_
  · cases x <;> cases heq
  · cases x <;> cases hw

theorem formed_marker (target : String) : (marker target).Formed := by
  refine forall_objects (fun members heq _ => ⟨target, (object.inj heq).symm⟩) fun w hw => ?_
  obtain rfl : w = .string target := List.mem_singleton.1 hw
  exact formed_scalarValue (.string target)

theorem formed_written {n : Node} {values : List Json} (hlength : values.length = n.items.length)
    (h : ∀ v ∈ values, v.Formed) : (written n values).Formed := by
  refine forall_objects (fun members heq hkey => ?_) fun w hw => h w (children_written hlength ▸ hw)
  cases n with
  | array items => cases heq
  | object entries =>
    obtain rfl := object.inj heq
    obtain ⟨e, he, hkey⟩ := List.mem_map.1 hkey
    obtain ⟨key, -, hescape⟩ := List.mem_map.1 (List.of_mem_zip he).1
    exact absurd (hescape.trans hkey) (escapeKey_ne_refKey key)

end Json

namespace Wire

variable {c : Content} {places : List (String × Item)} {seen seen' : Seen} {values : List Json}

theorem Writes.formed (h : Writes c places seen values seen') : ∀ v ∈ values, v.Formed := by
  induction h with
  | nil => exact List.forall_mem_nil _
  | @scalar place x _ _ _ _ _ _ ih => exact List.forall_mem_cons.2 ⟨Json.formed_scalarValue x, ih⟩
  | @again place target _ _ _ _ _ _ _ ih =>
    exact List.forall_mem_cons.2 ⟨Json.formed_marker target, ih⟩
  | missing _ _ _ ih => exact List.forall_mem_cons.2 ⟨Json.formed_scalarValue .null, ih⟩
  | enter _ _ hinside _ ihinside ih =>
    exact List.forall_mem_cons.2 ⟨Json.formed_written hinside.length_items ihinside, ih⟩

end Wire

/-! ## What is read -/

namespace Content

open Wire

variable {c : Content} {v : Json} {seen' : Seen} {m i : NodeId}

/-- The nodes that a walk has entered. -/
def entered (c : Content) (seen : Seen) : Finset NodeId :=
  (Finset.range c.nodes.size).filter fun id => ¬seen.contains id = false

theorem linksLeft_add_entered (c : Content) (m : NodeId) (seen : Seen) :
    linksLeft c m seen + ∑ id ∈ c.entered seen, c.links m id = linksLeft c m ∅ := by
  rw [linksLeft, entered, Finset.sum_filter_add_sum_filter_not, linksLeft]
  simp

theorem mem_entered_iff (h : Writes c [("", c.root)] ∅ [v] seen') :
    i ∈ c.entered seen' ↔ (c.node? i).isSome ∧ c.Reaches i := by
  rw [entered, Finset.mem_filter, Finset.mem_range, ← h.known_iff, ← Option.isSome_iff_exists,
    Std.HashMap.isSome_getElem?_eq_contains]
  simp [node?]

/-- The condition, by the nodes that a walk from the root has entered. -/
theorem danglesOnce_iff (h : Writes c [("", c.root)] ∅ [v] seen') :
    c.DanglesOnce ↔
      ∀ m, c.node? m = none → ∑ id ∈ c.entered seen', c.links m id ≤ 1 := by
  have hentered {m i : NodeId} (hi : c.Reaches i) (hpos : 0 < c.links m i) :
      i ∈ c.entered seen' := by
    refine (mem_entered_iff h).2 ⟨?_, hi⟩
    by_contra hnone
    simp [links, Option.not_isSome_iff_eq_none.1 hnone] at hpos
  refine forall_congr' fun m => imp_congr_right fun _ => ?_
  rw [sum_links_le_one_iff]
  constructor
  · rintro ⟨hone, hsame⟩
    exact ⟨fun i hi => hone i ((mem_entered_iff h).1 hi).2, fun i hi j hj =>
      hsame i j ((mem_entered_iff h).1 hi).2 ((mem_entered_iff h).1 hj).2⟩
  · rintro ⟨hone, hsame⟩
    refine ⟨fun i hi => ?_, fun i j hi hj hpos hpos' => ?_⟩
    · rcases Nat.eq_zero_or_pos (c.links m i) with hzero | hpos
      · exact hzero ▸ Nat.zero_le 1
      · exact hone i (hentered hi hpos)
    · exact hsame i (hentered hi hpos) j (hentered hj hpos') hpos hpos'

/-- From a root that dangles nothing else is reached. -/
theorem Reaches.eq_of_root (h : c.Reaches i) (hroot : c.root = .node m) (missing : c.node? m = none) :
    i = m := by
  induction h with
  | root h => exact Item.node.inj (h.symm.trans hroot)
  | step _ here _ ih =>
    rw [ih, missing] at here
    cases here

/-- **A graph that dangles once is written like the one with null in place of the links.** -/
theorem DanglesOnce.writtenAs_filled (once : c.DanglesOnce)
    (h : Writes c [("", c.root)] ∅ [v] seen') : c.filled.WrittenAs v := by
  suffices honce : ∀ m, c.node? m = none → met ∅ m + ([("", c.root)].map (·.2)).count (.node m) +
      linksLeft c m ∅ ≤ met seen' m + linksLeft c m seen' by
    obtain ⟨other', -, hfilled⟩ := h.filled honce fun _ _ => rfl
    exact ⟨other', hfilled⟩
  intro m missing
  by_contra hlt
  obtain ⟨_, -, _, target, -, known⟩ := h.exists_marker missing (Nat.lt_of_not_le hlt)
  have hsum := (danglesOnce_iff h).1 once m missing
  have hleft := c.linksLeft_add_entered m seen'
  have hmet : met seen' m = 1 := met_of_some known
  have hstart : met ∅ m = 0 := met_of_none (by simp)
  -- met again, so there are two links, one of which is in the root
  have hroot : c.root = .node m := by
    by_contra hne
    have hcount : ([("", c.root)].map (·.2)).count (.node m) = 0 :=
      List.count_eq_zero.2 (by simpa using Ne.symm hne)
    omega
  have hempty : c.entered seen' = ∅ := by
    refine Finset.eq_empty_of_forall_notMem fun i hi => ?_
    obtain ⟨hsome, hreach⟩ := (mem_entered_iff h).1 hi
    rw [hreach.eq_of_root hroot missing, missing] at hsome
    cases hsome
  have hcount : ([("", c.root)].map (·.2)).count (.node m) ≤ 1 := List.count_le_length
  rw [hempty, Finset.sum_empty] at hleft
  omega

/-- **A graph in which a number without a node is linked twice** is written with a reference to a
place where there is no container. -/
theorem not_wellReferenced_of_not_danglesOnce (twice : ¬c.DanglesOnce)
    (h : Writes c [("", c.root)] ∅ [v] seen') : ¬v.WellReferenced := by
  rw [danglesOnce_iff h] at twice
  push Not at twice
  obtain ⟨m, missing, hsum⟩ := twice
  have hleft := c.linksLeft_add_entered m seen'
  have hmet := met_le_one seen' m
  obtain ⟨_, hv, path, target, hmarker, known⟩ := h.exists_marker missing (by omega)
  obtain rfl := List.mem_singleton.1 hv
  obtain ⟨place, w, hw, rest, hnull, hpointer⟩ := h.exists_null missing (by simp) known
  obtain ⟨rfl, rfl⟩ : place = "" ∧ w = _ := by simpa using hw
  intro hwell
  obtain ⟨there, x, hx, container, hthere⟩ := hwell.located path target hmarker
  have keys : Json.DistinctKeys _ := (h.ordered _ List.mem_cons_self).distinctKeys
  obtain rfl := Json.eq_of_pointerFrom_eq keys hx hnull (hthere.trans hpointer.symm)
  obtain rfl := hx.unique keys hnull
  exact Json.not_isContainer_scalarValue .null container

/-- **What is written is read exactly if no number without a node is linked twice.** Then it is read
as the graph with null in place of the links that dangle, and otherwise refused for a reference to a
place where there is no container. -/
theorem decode_dangling {c : Content} {v : Json} (h : c.encode = .ok v) :
    (c.DanglesOnce → ∃ d, decode v = .ok d ∧ d.same c.filled = true ∧ c.filled.same d = true) ∧
    (¬c.DanglesOnce → ∃ target, decode v = .error (.unresolvedReference target)) := by
  obtain ⟨seen', hwrites⟩ := writtenAs_of_encode h
  constructor
  · intro once
    have hfilled := (once.writtenAs_filled hwrites).encodeWithin_eq c.closed_filled
      (nesting_le_of_encode h)
    obtain ⟨-, d, _, hd, hcorr⟩ := ordered_and_exists_correspondence c.closed_filled hfilled
    exact ⟨d, hd, same_of_correspondence hcorr, same_of_correspondence hcorr.symm⟩
  · intro twice
    have hwell := not_wellReferenced_of_not_danglesOnce twice hwrites
    rcases decode_cases v with ⟨hv, -⟩ | ⟨-, -, _, target, -, -, hd⟩ | ⟨hv, -⟩
    · exact absurd (hwrites.formed v List.mem_cons_self) hv
    · exact ⟨target, hd⟩
    · exact absurd hv hwell

/-- A graph with two links that dangle, to different numbers, beside shared ones. -/
def loose : Content :=
  ⟨#[.object (.ofList [("a", .node 1), ("b", .node 1), ("c", .node 7)]),
    .array [.node 9, .bool true, .node 0]], .node 0⟩

/-- The tree that `loose` is written as. -/
def looseTree : Json :=
  .object [("a", .array [.null, .bool true, marker ""]), ("b", marker "/a"), ("c", .null)]

theorem decode_dangling_loose : loose.encode = .ok looseTree ∧ loose.DanglesOnce ∧
    ∃ d, decode looseTree = .ok d ∧ d.same loose.filled = true ∧ loose.filled.same d = true := by
  have h : loose.encode = .ok looseTree := by cbv
  have hread : (decode looseTree).toOption.isSome = true := rfl
  have once : loose.DanglesOnce := by
    by_contra twice
    obtain ⟨target, hd⟩ := (decode_dangling h).2 twice
    rw [hd] at hread
    cases hread
  exact ⟨h, once, (decode_dangling h).1 once⟩

/-- An array with two links to one node of another graph. -/
def twins : Content :=
  ⟨#[.array [.node 1, .node 1]], .node 0⟩

/-- The second link refers to the null that the first was written as. -/
theorem unresolved_twins : ¬∀ (c : Content) (v : Json), c.encode = .ok v →
    ∃ d, decode v = .ok d ∧ d.same c.filled = true := by
  intro hall
  have h : twins.encode = .ok (.array [.null, marker "/0"]) := by cbv
  have hread : decode (.array [.null, marker "/0"]) = .error (.unresolvedReference "/0") := rfl
  obtain ⟨d, hd, -⟩ := hall _ _ h
  cases hread.symm.trans hd

end Content

end DebugBridge

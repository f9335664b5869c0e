import DebugBridge.Proofs.Json.Reading
import DebugBridge.Proofs.Wire.Walk

/-!
# Proofs/Wire/Written — what every written tree has

A walk writes scalars, null, markers and containers of what it wrote before, so what these four have
or inherit every written tree has (`encodeItem_induction`). Here this is used twice: a written tree
nests no deeper than the room it was written in (`nesting_le_of_encode`), and it holds no numbers
but those of the graph (`integral_of_encode`).
-/

namespace DebugBridge

/-- The number in a slot. -/
def Item.number? : Item → Option Number
  | .number n => some n
  | _ => none

namespace Content

/-- A slot within reach: the root, or a slot of a container that is reached. -/
inductive Holds (c : Content) : Item → Prop
  | root : Holds c c.root
  | inside {id : NodeId} {n : Node} {x : Item} (reached : c.Reaches id) (here : c.node? id = some n)
      (slot : x ∈ n.items) : Holds c x

theorem Holds.reaches {c : Content} {id : NodeId} (h : c.Holds (.node id)) : c.Reaches id := by
  generalize hx : Item.node id = x at h
  cases h with
  | root => exact .root hx.symm
  | inside reached here slot => exact .step reached here (hx ▸ slot)

/-- **Every number within reach is an integer.** -/
def Integral (c : Content) : Prop :=
  ∀ n : Number, c.Holds (.number n) → n.IsInteger

/-- Numbers may be looked for in all nodes, reached or not. -/
theorem integral_of_slots {c : Content} (hroot : ∀ n ∈ c.root.number?, n.IsInteger)
    (hslots : ∀ node ∈ c.nodes.toList, ∀ n ∈ node.items.filterMap Item.number?, n.IsInteger) :
    c.Integral := by
  intro n h
  generalize hx : Item.number n = x at h
  cases h with
  | root => exact hroot n (by rw [← hx]; rfl)
  | inside reached here slot =>
    have hmem : _ ∈ c.nodes.toList := Array.mem_toList_iff.2 (Array.mem_of_getElem? here)
    exact hslots _ hmem n (List.mem_filterMap.2 ⟨x, slot, by rw [← hx]; rfl⟩)

end Content

namespace Wire

theorem forall_of_encodeSlots {P : Json → Prop} {item : SlotWriter} {places : List (String × Item)}
    (hitem : ∀ place x seen v seen', x ∈ places.map (·.2) → item place x seen = .ok (v, seen') →
      P v) {seen seen' : Seen} {values : List Json}
    (h : encodeSlots item places seen = .ok (values, seen')) : ∀ v ∈ values, P v := by
  induction places generalizing seen values with
  | nil =>
    cases h
    exact List.forall_mem_nil P
  | cons slot rest ih =>
    obtain ⟨place, x⟩ := slot
    simp only [encodeSlots, bind, Except.bind] at h
    split at h
    · cases h
    · next first hfirst =>
      split at h
      · cases h
      · next others hothers =>
        cases h
        have hhead := hitem place x seen _ _ (by simp) hfirst
        have htail := ih (fun place x seen v seen' hx => hitem place x seen v seen'
          (List.mem_cons_of_mem _ hx)) hothers
        exact List.forall_mem_cons.2 ⟨hhead, htail⟩

/-- **Induction along a walk**, where `room` is what is left of the limit. -/
theorem encodeItem_induction {c : Content} {limit : Nat} {P : Nat → Json → Prop}
    (scalar : ∀ room x, x.IsScalar → c.Holds x → P room (scalarValue x))
    (missing : ∀ room, P room .null)
    (again : ∀ room target, P (room + 1) (marker target))
    (container : ∀ room n values, (∀ v ∈ values, P room v) → P (room + 1) (written n values))
    (room : Nat) (place : String) (x : Item) (seen : Seen) (v : Json) (seen' : Seen)
    (hx : c.Holds x) (h : encodeItem c limit room place x seen = .ok (v, seen')) : P room v := by
  induction room generalizing place x seen v seen' with
  | zero =>
    have hscalar : x.IsScalar := by
      rintro id rfl
      rw [encodeItem] at h
      cases h
    rw [encodeItem_scalar hscalar] at h
    cases h
    exact scalar 0 x hscalar hx
  | succ room ih =>
    by_cases hscalar : x.IsScalar
    · rw [encodeItem_scalar hscalar] at h
      cases h
      exact scalar _ x hscalar hx
    obtain ⟨id, rfl⟩ : ∃ id, x = .node id := by simpa [Item.IsScalar] using hscalar
    rw [encodeItem_node] at h
    split at h
    · next target _ =>
      cases h
      exact again room target
    · split at h
      · cases h
        exact missing _
      · next n hn =>
        simp only [Except.map] at h
        split at h
        · cases h
        · next r hr =>
          cases h
          refine container room n _ (forall_of_encodeSlots (fun place y seen v seen' hy => ?_) hr)
          rw [map_snd_slotPlaces] at hy
          exact ih place y seen v seen' (.inside hx.reaches hn hy)

theorem mem_of_mem_children_written {n : Node} {values : List Json} {w : Json}
    (h : w ∈ (written n values).children) : w ∈ values := by
  cases n with
  | array items => exact h
  | object members =>
    obtain ⟨e, he, rfl⟩ := List.mem_map.1 h
    exact (List.of_mem_zip he).2

theorem nesting_scalarValue (x : Item) : (scalarValue x).nesting = 0 := by
  cases x <;> rfl

theorem nesting_marker (target : String) : (marker target).nesting = 1 := rfl

/-- What is written nests no deeper than the room that it has. -/
theorem nesting_le_of_encodeItem {c : Content} {limit room : Nat} {place : String} {x : Item}
    {seen seen' : Seen} {v : Json} (hx : c.Holds x)
    (h : encodeItem c limit room place x seen = .ok (v, seen')) : v.nesting ≤ room := by
  refine encodeItem_induction (P := fun room v => v.nesting ≤ room) ?scalar (fun _ => Nat.zero_le _)
    ?again ?container room place x seen v seen' hx h
  case scalar => exact fun room x _ _ => by simp [nesting_scalarValue]
  case again => exact fun room target => by simp [nesting_marker]
  case container =>
    exact fun room n values hvalues =>
      Json.nesting_le_succ fun w hw => hvalues w (mem_of_mem_children_written hw)

/-- What is written of a graph whose numbers are integers has integers only. -/
theorem integral_of_encodeItem {c : Content} (integral : c.Integral) {limit room : Nat}
    {place : String} {x : Item} {seen seen' : Seen} {v : Json} (hx : c.Holds x)
    (h : encodeItem c limit room place x seen = .ok (v, seen')) : v.Integral := by
  refine encodeItem_induction (P := fun _ v => v.Integral) ?scalar
    (fun _ => Json.integral_null) ?again ?container room place x seen v seen' hx h
  case scalar =>
    intro room x _ hx
    refine .intro (fun n hn => ?_) (fun w hw => ?_)
    · cases x <;> cases hn
      exact integral n hx
    · cases x <;> cases hw
  case again =>
    intro room target
    refine .intro (fun _ h => nomatch h) fun w hw => ?_
    obtain rfl : w = .string target := List.mem_singleton.1 hw
    exact Json.integral_string target
  case container =>
    intro room n values hvalues
    refine .intro (fun number hn => ?_) fun w hw => hvalues w (mem_of_mem_children_written hw)
    cases n <;> cases hn

end Wire

namespace Content

/-- **A written tree nests no deeper than the limit.** -/
theorem nesting_le_of_encode {c : Content} {v : Json} (h : c.encode = .ok v) :
    v.nesting ≤ Wire.maxDepth := by
  obtain ⟨_, hwalk⟩ := exists_walk_of_encode h
  exact Wire.nesting_le_of_encodeItem .root hwalk

/-- **A graph whose numbers are integers is written as a tree whose numbers are.** -/
theorem integral_of_encode {c : Content} (integral : c.Integral) {v : Json} (h : c.encode = .ok v) :
    v.Integral := by
  obtain ⟨_, hwalk⟩ := exists_walk_of_encode h
  exact Wire.integral_of_encodeItem integral .root hwalk

end Content

end DebugBridge

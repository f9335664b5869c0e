import DebugBridge.Proofs.Wire.Writing
import Mathlib.Data.Nat.Init

/-!
# Proofs/Wire/Walk — the walk of the writer without its limit

The writer recurses on the room that is left, so the limit is part of how it ends. `Writes` is the
same walk with nothing said about room or about its end: what stands in the slots decides what is
written for them, and which pointers are noted. Whatever the writer writes is written so
(`writes_of_encodeItem`), so what holds of a written tree is shown by induction along `Writes`, with
one case for each of the four things that are written for a slot.

The walk ends without a limit too, because no node is entered twice (`exists_writes`).
-/

namespace DebugBridge

namespace Wire

/-- **What writing some slots at their places comes to, with no limit**: the values, and the
pointers of the nodes met before and after. -/
inductive Writes (c : Content) : List (String × Item) → Seen → List Json → Seen → Prop
  | nil {seen : Seen} : Writes c [] seen [] seen
  | scalar {place : String} {x : Item} {rest : List (String × Item)} {seen seen' : Seen}
    {values : List Json} : x.IsScalar → Writes c rest seen values seen' →
    Writes c ((place, x) :: rest) seen (scalarValue x :: values) seen'
  | again {place target : String} {id : NodeId} {rest : List (String × Item)} {seen seen' : Seen}
    {values : List Json} : seen[id]? = some target → Writes c rest seen values seen' →
    Writes c ((place, .node id) :: rest) seen (marker target :: values) seen'
  | missing {place : String} {id : NodeId} {rest : List (String × Item)} {seen seen' : Seen}
    {values : List Json} : seen[id]? = none → c.node? id = none →
    Writes c rest (seen.insert id place) values seen' →
    Writes c ((place, .node id) :: rest) seen (.null :: values) seen'
  | enter {place : String} {id : NodeId} {n : Node} {rest : List (String × Item)}
    {seen seen' seen'' : Seen} {inside values : List Json} :
    seen[id]? = none → c.node? id = some n →
    Writes c (slotPlaces place n) (seen.insert id place) inside seen' →
    Writes c rest seen' values seen'' →
    Writes c ((place, .node id) :: rest) seen (written n inside :: values) seen''

variable {c : Content} {places rest : List (String × Item)} {p : String × Item}
  {seen seen' seen'' : Seen} {values others : List Json} {v : Json} {limit room : Nat}

/-- One slot after another: the later ones find visited what the first has written. -/
theorem Writes.cons (h : Writes c [p] seen [v] seen') (later : Writes c rest seen' values seen'') :
    Writes c (p :: rest) seen (v :: values) seen'' := by
  cases h with
  | scalar hx h =>
    cases h
    exact .scalar hx later
  | again met h =>
    cases h
    exact .again met later
  | missing new none h =>
    cases h
    exact .missing new none later
  | enter new here inside h =>
    cases h
    exact .enter new here inside later

/-- There is a value for every slot. -/
theorem Writes.length_eq (h : Writes c places seen values seen') :
    values.length = places.length := by
  induction h with
  | nil => rfl
  | scalar _ _ ih | again _ _ ih | missing _ _ _ ih | enter _ _ _ _ _ ih => exact congrArg (· + 1) ih

/-- There is a value for every item of a node. -/
theorem Writes.length_items {n : Node} {place : String}
    (h : Writes c (slotPlaces place n) seen values seen') : values.length = n.items.length := by
  rw [h.length_eq, ← map_snd_slotPlaces place n, List.length_map]

/-- A visit leaves all other nodes as visited as they were. -/
theorem getElem?_insert_of_ne {j id : NodeId} (h : j ≠ id) (seen : Seen) (place : String) :
    (seen.insert j place)[id]? = seen[id]? := by
  rw [Std.HashMap.getElem?_insert, if_neg (by simpa using h)]

/-- Pointers are never given up. -/
theorem Writes.mono (h : Writes c places seen values seen') {id : NodeId} {pointer : String}
    (met : seen[id]? = some pointer) : seen'[id]? = some pointer := by
  have hinsert {seen : Seen} {j : NodeId} {place : String} (new : seen[j]? = none)
      (met : seen[id]? = some pointer) : (seen.insert j place)[id]? = some pointer := by
    rw [getElem?_insert_of_ne, met]
    rintro rfl
    rw [met] at new
    cases new
  induction h with
  | nil => exact met
  | scalar _ _ ih | again _ _ ih => exact ih met
  | missing new _ _ ih => exact ih (hinsert new met)
  | enter new _ _ _ ihinside ih => exact ih (ihinside (hinsert new met))

/-! ## The walk ends -/

/-- Writing leaves no more nodes unvisited than there were. -/
theorem Writes.unvisited_le (h : Writes c places seen values seen') (size : Nat) :
    unvisited seen' size ≤ unvisited seen size := by
  refine List.countP_mono_left fun id _ hid => ?_
  cases hmet : seen[id]? with
  | none => simpa [← Std.HashMap.isSome_getElem?_eq_contains] using hmet
  | some pointer =>
    rw [← Std.HashMap.isSome_getElem?_eq_contains, h.mono hmet] at hid
    cases hid

/-- **A walk without a limit comes to an end**, since every node that it enters is one less that it
has not entered. -/
theorem exists_writes (c : Content) (places : List (String × Item)) (seen : Seen) :
    ∃ values seen', Writes c places seen values seen' := by
  generalize hk : unvisited seen c.nodes.size = k
  replace hk := Nat.le_of_eq hk
  induction k using Nat.strong_induction_on generalizing places seen with
  | h k inner =>
    induction places generalizing seen with
    | nil => exact ⟨[], seen, .nil⟩
    | cons p rest ih =>
      obtain ⟨place, x⟩ := p
      by_cases hx : x.IsScalar
      · obtain ⟨values, seen', h⟩ := ih seen hk
        exact ⟨_, _, .scalar hx h⟩
      obtain ⟨id, rfl⟩ : ∃ id, x = .node id := by simpa [Item.IsScalar] using hx
      cases hmet : seen[id]? with
      | some target =>
        obtain ⟨values, seen', h⟩ := ih seen hk
        exact ⟨_, _, .again hmet h⟩
      | none =>
        cases hn : c.node? id with
        | none =>
          have hle := unvisited_insert_le seen id place c.nodes.size
          obtain ⟨values, seen', h⟩ := ih (seen.insert id place) (Nat.le_trans hle hk)
          exact ⟨_, _, .missing hmet hn h⟩
        | some n =>
          have hnew : ¬seen.contains id := by
            simp [← Std.HashMap.isSome_getElem?_eq_contains, hmet]
          have hlt := unvisited_insert_lt (Array.getElem?_eq_some_iff.1 hn).1 hnew place
          have hless := Nat.lt_of_lt_of_le hlt hk
          obtain ⟨inside, seen', h⟩ := inner _ hless (slotPlaces place n) _ (Nat.le_refl _)
          obtain ⟨values, seen'', h'⟩ := inner _ hless rest seen' (h.unvisited_le c.nodes.size)
          exact ⟨_, _, .enter hmet hn h h'⟩

/-! ## The walk with a limit -/

/-- If every slot is written by the rules, so are several in order. -/
theorem writes_of_encodeSlots {item : SlotWriter}
    (hitem : ∀ place x seen v seen', item place x seen = .ok (v, seen') →
      Writes c [(place, x)] seen [v] seen')
    (h : encodeSlots item places seen = .ok (values, seen')) : Writes c places seen values seen' := by
  induction places generalizing seen values with
  | nil =>
    cases h
    exact .nil
  | cons p rest ih =>
    obtain ⟨place, x⟩ := p
    simp only [encodeSlots, bind, Except.bind, pure, Except.pure] at h
    split at h
    · cases h
    · next first hfirst =>
      split at h
      · cases h
      · next later hlater =>
        cases h
        exact (hitem place x seen first.1 first.2 hfirst).cons (ih hlater)

/-- **What the writer writes is what the walk without a limit writes.** -/
theorem writes_of_encodeItem {place : String} {x : Item}
    (h : encodeItem c limit room place x seen = .ok (v, seen')) :
    Writes c [(place, x)] seen [v] seen' := by
  induction room generalizing place x seen v seen' with
  | zero =>
    have hx : x.IsScalar := by
      rintro id rfl
      rw [encodeItem] at h
      cases h
    rw [encodeItem_scalar hx] at h
    cases h
    exact .scalar hx .nil
  | succ room ih =>
    by_cases hx : x.IsScalar
    · rw [encodeItem_scalar hx] at h
      cases h
      exact .scalar hx .nil
    obtain ⟨id, rfl⟩ : ∃ id, x = .node id := by simpa [Item.IsScalar] using hx
    rw [encodeItem_node] at h
    split at h
    · next target met =>
      cases h
      exact .again met .nil
    · next new =>
      split at h
      · next hn =>
        cases h
        exact .missing new hn .nil
      · next n hn =>
        simp only [Except.map] at h
        split at h
        · cases h
        · next r hr =>
          cases h
          exact .enter new hn (writes_of_encodeSlots (fun _ _ _ _ _ => ih) hr) .nil

end Wire

namespace Content

open Wire

/-- **A walk from the root without a limit writes this tree.** -/
def WrittenAs (c : Content) (v : Json) : Prop :=
  ∃ seen', Writes c [("", c.root)] ∅ [v] seen'

variable {c : Content} {v : Json}

/-- A content that is written is walked through from its root, with nothing visited. -/
theorem exists_walk_of_encode (h : c.encode = .ok v) :
    ∃ seen', encodeItem c Wire.maxDepth Wire.maxDepth "" c.root ∅ = .ok (v, seen') := by
  unfold encode encodeWithin Except.map at h
  split at h
  · cases h
  · next r hr =>
    cases h
    exact ⟨r.2, hr⟩

/-- **What is written is written by the rules.** -/
theorem writtenAs_of_encode (h : c.encode = .ok v) : c.WrittenAs v := by
  obtain ⟨seen', hwalk⟩ := exists_walk_of_encode h
  exact ⟨seen', writes_of_encodeItem hwalk⟩

/-- Every content can be written by the rules, if depth is of no matter. -/
theorem exists_writtenAs (c : Content) : ∃ v, c.WrittenAs v := by
  obtain ⟨values, seen', h⟩ := exists_writes c [("", c.root)] ∅
  obtain ⟨v, rfl⟩ := List.length_eq_one_iff.1 h.length_eq
  exact ⟨v, seen', h⟩

end Content

end DebugBridge

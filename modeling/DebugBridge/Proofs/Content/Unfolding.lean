import DebugBridge.Content.Tree
import DebugBridge.Proofs.Json.Same
import DebugBridge.Proofs.MapM
import DebugBridge.Proofs.Wire.Writing
import Mathlib.Data.Nat.Init

/-!
# Proofs/Content/Unfolding — equal graphs unfold alike

A graph unfolds into the tree of all paths from its root, or into nothing if one of them comes back
to itself. Along a correspondence two unfoldings go side by side: a slot is on the path above it in
both or in neither, and the two paths have room for as many nodes as are not on them, although the
graphs may differ in size (`treeAt?_alike`).
-/

namespace DebugBridge

/-- Lists that are related item by item are related at every index. -/
theorem rel_getElem? {α β : Type} {S : α → β → Prop} {l : List α} {l' : List β}
    (h : List.Forall₂ S l l') (i : Nat) : Option.Rel S l[i]? l'[i]? := by
  induction h generalizing i with
  | nil => exact .none
  | cons head _ ih =>
    cases i with
    | zero => exact .some head
    | succ i => exact ih i

/-- Equal scalars are written as equal trees. -/
theorem Wire.alike_scalarValue {x y : Item} (h : x.sameScalar y = true) :
    Json.Alike (Wire.scalarValue x) (Wire.scalarValue y) := by
  rw [Json.alike_iff_level]
  rcases x with _ | _ | _ | _ | _ <;> rcases y with _ | _ | _ | _ | _ <;> first | cases h | skip
  case null.null => exact .null
  case bool.bool => exact beq_iff_eq.1 h ▸ .bool _
  case number.number => exact .number h
  case string.string => exact beq_iff_eq.1 h ▸ .string _

/-- What is related is related after a change that keeps it so. -/
theorem rel_map {α β γ δ : Type} {S : α → β → Prop} {T : γ → δ → Prop} {f : α → γ} {g : β → δ}
    (hfg : ∀ x y, S x y → T (f x) (g y)) {x : Option α} {y : Option β} (h : Option.Rel S x y) :
    Option.Rel T (x.map f) (y.map g) := by
  cases h with
  | none => exact .none
  | some h => exact .some (hfg _ _ h)

namespace Content

variable {a b c : Content} {room more : Nat} {above above' : List NodeId} {x y : Item} {id : NodeId}
  {n : Node} {R : NodeId → NodeId → Prop}

/-! ## One step of unfolding -/

/-- A scalar unfolds into itself. -/
theorem treeAt?_scalar (h : x.IsScalar) (c : Content) (room : Nat) (above : List NodeId) :
    c.treeAt? room above x = some (Wire.scalarValue x) := by
  rcases x with _ | _ | _ | _ | id
  case node => exact absurd rfl (h id)
  all_goals
    rw [treeAt?]
    rfl

/-- A link to a container that it stands in does not unfold. -/
theorem treeAt?_above (h : id ∈ above) (c : Content) (room : Nat) :
    c.treeAt? room above (.node id) = none := by
  unfold treeAt?
  simp [h]

/-- A link to nothing unfolds into null. -/
theorem treeAt?_missing (h : id ∉ above) (missing : c.node? id = none) (room : Nat) :
    c.treeAt? room above (.node id) = some .null := by
  unfold treeAt?
  simp [h, missing]

/-- A link to an array unfolds into what its items unfold into. -/
theorem treeAt?_array (h : id ∉ above) {items : List Item} (here : c.node? id = some (.array items))
    (room : Nat) : c.treeAt? (room + 1) above (.node id) =
      (items.mapM (c.treeAt? room (id :: above))).map .array := by
  conv_lhs => unfold treeAt?
  simp [h, here]

/-- A link to an object unfolds into what its members unfold into, under the same keys. -/
theorem treeAt?_object (h : id ∉ above) {members : KeyMap Item}
    (here : c.node? id = some (.object members)) (room : Nat) :
    c.treeAt? (room + 1) above (.node id) = (members.entries.mapM fun (entry : String × Item) =>
      (c.treeAt? room (id :: above) entry.2).map fun value => (entry.1, value)).map .object := by
  conv_lhs => unfold treeAt?
  simp [h, here]

/-- How many nodes are not on a path. -/
def offPath (c : Content) (above : List NodeId) : Nat :=
  (List.range c.nodes.size).countP fun id => !above.contains id

/-- There are no more nodes off an empty path than there are nodes. -/
theorem offPath_nil_le (c : Content) : c.offPath [] ≤ c.nodes.size := by
  simp [offPath]

/-- A path that goes on to another node leaves fewer nodes off it. -/
theorem offPath_cons_lt (h : id ∉ above) (here : c.node? id = some n) :
    c.offPath (id :: above) < c.offPath above := by
  have hlt : id < c.nodes.size := (Array.getElem?_eq_some_iff.1 here).1
  refine countP_lt_countP (fun k _ hk => ?_) (List.mem_range.2 hlt) ?_ ?_
  · simp only [List.contains_cons] at hk
    simp_all
  · simp
  · simp [h]

/-! ## Two graphs side by side -/

/-- Partners are on corresponding paths, or neither is. -/
theorem mem_iff_of_forall₂ (unique : Relator.BiUnique R) (h : List.Forall₂ R above above')
    {i j : NodeId} (hij : R i j) : i ∈ above ↔ j ∈ above' := by
  induction h with
  | nil => simp
  | @cons i' j' _ _ head _ ih =>
    have hhead : i = i' ↔ j = j' := Relator.rel_eq unique hij head
    rw [List.mem_cons, List.mem_cons, ih, hhead]

/-- **Corresponding slots unfold alike**, as long as there is room for the nodes that are not on the
path. -/
theorem treeAt?_alike (h : a.Correspondence b R) (hroom : a.offPath above ≤ room)
    (hmore : b.offPath above' ≤ more) (habove : List.Forall₂ R above above')
    (hxy : Item.Corresponds R x y) :
    Option.Rel Json.Alike (a.treeAt? room above x) (b.treeAt? more above' y) := by
  induction room using Nat.strong_induction_on generalizing more above above' x y with
  | h room ih =>
    cases hxy with
    | @scalar x y same =>
      obtain ⟨hx, hy⟩ := Item.isScalar_of_sameScalar same
      rw [treeAt?_scalar hx, treeAt?_scalar hy]
      exact .some (Wire.alike_scalarValue same)
    | @node i j related =>
      by_cases hi : i ∈ above
      · have hj := (mem_iff_of_forall₂ h.unique habove related).1 hi
        rw [treeAt?_above hi, treeAt?_above hj]
        exact .none
      have hj : j ∉ above' := fun hj => hi ((mem_iff_of_forall₂ h.unique habove related).2 hj)
      have hnodes := h.nodes related
      cases hn : a.node? i with
      | none =>
        have hm : b.node? j = none := by
          rw [hn] at hnodes
          generalize b.node? j = m at hnodes
          cases hnodes
          rfl
        rw [treeAt?_missing hi hn, treeAt?_missing hj hm]
        exact .some (Json.alike_iff_level.2 .null)
      | some n =>
        obtain ⟨m, hm, hcorr⟩ : ∃ m, b.node? j = some m ∧ n.Corresponds R m := by
          rw [hn] at hnodes
          generalize b.node? j = m at hnodes
          cases hnodes with
          | some hcorr => exact ⟨_, rfl, hcorr⟩
        have hlt := offPath_cons_lt hi hn
        have hlt' := offPath_cons_lt hj hm
        obtain ⟨room, rfl⟩ := Nat.exists_eq_succ_of_ne_zero (show room ≠ 0 by omega)
        obtain ⟨more, rfl⟩ := Nat.exists_eq_succ_of_ne_zero (show more ≠ 0 by omega)
        have hinside (x y : Item) (hxy : Item.Corresponds R x y) :
            Option.Rel Json.Alike (a.treeAt? room (i :: above) x) (b.treeAt? more (j :: above') y) :=
          ih room (Nat.lt_succ_self room) (by omega) (by omega) (.cons related habove) hxy
        cases hcorr with
        | array items =>
          rw [treeAt?_array hi hn, treeAt?_array hj hm]
          exact rel_map (fun _ _ h => Json.alike_iff_level.2 (.array h)) (rel_mapM hinside items)
        | object keys values =>
          rw [treeAt?_object hi hn, treeAt?_object hj hm]
          have hentry (e f : String × Item) (h : e.1 = f.1 ∧ Item.Corresponds R e.2 f.2) :
              Option.Rel (fun m n : String × Json => m.1 = n.1 ∧ Json.Alike m.2 n.2)
                ((a.treeAt? room (i :: above) e.2).map fun v => (e.1, v))
                ((b.treeAt? more (j :: above') f.2).map fun v => (f.1, v)) :=
            rel_map (fun _ _ hvw => ⟨h.1, hvw⟩) (hinside e.2 f.2 h.2)
          have hentries := rel_mapM hentry (KeyMap.forall₂_entries_iff.2 ⟨keys, values⟩)
          exact rel_map (fun _ _ h => Json.alike_iff_level.2 (.object h)) hentries

/-- **Graphs that correspond unfold alike**: into equal trees, or both into nothing. -/
theorem toJson?_alike (h : a.Correspondence b R) : Option.Rel Json.Alike a.toJson? b.toJson? :=
  treeAt?_alike h a.offPath_nil_le b.offPath_nil_le .nil h.root

end Content

end DebugBridge

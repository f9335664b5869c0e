import DebugBridge.Proofs.Content.Correspondence
import DebugBridge.Proofs.Content.Unfolding
import Mathlib.Logic.Relation

/-!
# Proofs/Content/Cycles — no tree exactly for a cycle

Unfolding keeps the nodes of the path it is on and gives up where the path comes back to one of them
(`Content.ComesBack`). A node that is shared stands on two paths and twice on none, so it is no
reason to give up. As long as there is room for the nodes that are not on the path, coming back is
the only way to get no tree (`treeAt?_eq_none_iff`), and some path from the root comes back exactly
when some container within reach can be reached from itself (`comesBack_root_iff`).
-/

namespace DebugBridge

/-- The results for the values of some entries, with the keys put back. -/
theorem mapM_entries {α β : Type} (f : α → Option β) (l : List (String × α)) :
    (l.mapM fun e => (f e.2).map fun y => (e.1, y)) =
      ((l.map (·.2)).mapM f).map (l.map (·.1)).zip := by
  induction l with
  | nil => rfl
  | cons e l ih =>
    rw [List.mapM_cons, ih, List.map_cons, List.map_cons, List.mapM_cons]
    cases f e.2 with
    | none => rfl
    | some y => cases (l.map (·.2)).mapM f <;> rfl

/-- A container as a tree, with trees in place of its slots. -/
def Node.tree : Node → List Json → Json
  | .array _, trees => .array trees
  | .object members, trees => .object (members.keys.zip trees)

namespace Content

variable {c : Content} {room : Nat} {above : List NodeId} {x : Item} {id i j : NodeId} {n : Node}

/-- **One step of unfolding**, into the slots of a container. -/
theorem treeAt?_container (h : id ∉ above) (here : c.node? id = some n) (room : Nat) :
    c.treeAt? (room + 1) above (.node id) =
      (n.items.mapM (c.treeAt? room (id :: above))).map n.tree := by
  cases n with
  | array items => exact treeAt?_array h here room
  | object members =>
    rw [treeAt?_object h here, mapM_entries, Option.map_map]
    rfl

/-! ## Paths that come back -/

/-- Some path from a slot comes back to a node it went through, or to one of `above`. -/
inductive ComesBack (c : Content) : List NodeId → Item → Prop
  | here {above : List NodeId} {id : NodeId} (back : id ∈ above) : ComesBack c above (.node id)
  | inside {above : List NodeId} {id : NodeId} {n : Node} {x : Item} (here : c.node? id = some n)
      (slot : x ∈ n.items) (later : ComesBack c (id :: above) x) : ComesBack c above (.node id)

theorem not_comesBack_of_isScalar (h : x.IsScalar) : ¬ c.ComesBack above x := by
  rintro (back | ⟨here, -, -⟩) <;> exact h _ rfl

theorem not_comesBack_of_missing (h : id ∉ above) (missing : c.node? id = none) :
    ¬ c.ComesBack above (.node id) := by
  rintro (back | ⟨here, -, -⟩)
  · exact h back
  · rw [missing] at here
    cases here

theorem comesBack_container_iff (h : id ∉ above) (here : c.node? id = some n) :
    c.ComesBack above (.node id) ↔ ∃ x ∈ n.items, c.ComesBack (id :: above) x := by
  constructor
  · rintro (back | ⟨here', slot, later⟩)
    · exact absurd back h
    · obtain rfl := Option.some.inj (here.symm.trans here')
      exact ⟨_, slot, later⟩
  · rintro ⟨x, slot, later⟩
    exact .inside here slot later

/-- **Unfolding gives up exactly where a path comes back**, as long as there is room for the nodes
that are not on the path. -/
theorem treeAt?_eq_none_iff (hroom : c.offPath above ≤ room) :
    c.treeAt? room above x = none ↔ c.ComesBack above x := by
  induction room using Nat.strong_induction_on generalizing above x with
  | h room ih =>
    by_cases hx : x.IsScalar
    · simp [treeAt?_scalar hx, not_comesBack_of_isScalar hx]
    obtain ⟨id, rfl⟩ : ∃ id, x = .node id := by simpa [Item.IsScalar] using hx
    by_cases hid : id ∈ above
    · simp [treeAt?_above hid, ComesBack.here hid]
    cases hn : c.node? id with
    | none => simp [treeAt?_missing hid hn, not_comesBack_of_missing hid hn]
    | some n =>
      have hlt := offPath_cons_lt hid hn
      obtain ⟨room, rfl⟩ := Nat.exists_eq_succ_of_ne_zero (show room ≠ 0 by omega)
      rw [treeAt?_container hid hn, Option.map_eq_none_iff, mapM_eq_none_iff,
        comesBack_container_iff hid hn]
      exact exists_congr fun x => and_congr_right fun _ =>
        ih room (Nat.lt_succ_self room) (by omega)

/-! ## Cycles -/

/-- A container holds a link to a node. -/
def Links (c : Content) (i j : NodeId) : Prop :=
  ∃ n, c.node? i = some n ∧ .node j ∈ n.items

theorem isSome_node?_iff {id : Nat} : (c.node? id).isSome ↔ id < c.nodes.size := by
  simp [node?]

/-- **No link dangles**, within reach or not. -/
structure Intact (c : Content) : Prop where
  root : ∀ id, c.root = .node id → (c.node? id).isSome
  links : ∀ i j, c.Links i j → (c.node? j).isSome

theorem Intact.closed (h : c.Intact) : c.Closed := by
  intro id hid
  rcases hid with hroot | ⟨-, here, slot⟩
  · exact h.root id hroot
  · exact h.links _ id ⟨_, here, slot⟩

/-- **Some container within reach can be reached from itself** by one or more links. -/
def Cyclic (c : Content) : Prop :=
  ∃ id, c.Reaches id ∧ Relation.TransGen c.Links id id

/-- What a path comes back to is on a cycle: every node on the path leads to the slot at its end. -/
theorem ComesBack.cyclic (h : c.ComesBack above x)
    (hx : ∀ id, x = .node id → c.Reaches id ∧ ∀ a ∈ above, Relation.TransGen c.Links a id) :
    c.Cyclic := by
  induction h with
  | @here above id back => exact ⟨id, (hx id rfl).1, (hx id rfl).2 id back⟩
  | @inside above id n x here slot _ ih =>
    refine ih fun j hj => ?_
    subst hj
    obtain ⟨hreach, hpath⟩ := hx id rfl
    have hlink : c.Links id j := ⟨n, here, slot⟩
    refine ⟨hreach.step here slot, List.forall_mem_cons.2 ⟨.single hlink, fun a ha => ?_⟩⟩
    exact (hpath a ha).tail hlink

/-- Where no path comes back, none does one link further. -/
theorem not_comesBack_of_link (h : ¬ c.ComesBack above (.node i)) (link : c.Links i j) :
    ¬ c.ComesBack (i :: above) (.node j) := by
  obtain ⟨n, here, slot⟩ := link
  exact fun later => h (.inside here slot later)

theorem exists_not_comesBack_of_reaches (h : ¬ c.ComesBack [] c.root) (hi : c.Reaches i) :
    ∃ above, ¬ c.ComesBack above (.node i) := by
  induction hi with
  | root hroot => exact ⟨[], hroot ▸ h⟩
  | @step i j n _ here link ih =>
    obtain ⟨above, hback⟩ := ih
    exact ⟨i :: above, not_comesBack_of_link hback ⟨n, here, link⟩⟩

theorem exists_mem_not_comesBack (h : ¬ c.ComesBack above (.node i))
    (links : Relation.TransGen c.Links i j) :
    ∃ above', i ∈ above' ∧ ¬ c.ComesBack above' (.node j) := by
  induction links with
  | single link => exact ⟨i :: above, List.mem_cons_self, not_comesBack_of_link h link⟩
  | @tail k j _ link ih =>
    obtain ⟨above', hmem, hback⟩ := ih
    exact ⟨k :: above', List.mem_cons_of_mem k hmem, not_comesBack_of_link hback link⟩

/-- **Some path from the root comes back exactly if there is a cycle within reach.** -/
theorem comesBack_root_iff : c.ComesBack [] c.root ↔ c.Cyclic := by
  constructor
  · intro h
    exact h.cyclic fun id hroot => ⟨.root hroot, fun _ ha => nomatch ha⟩
  · rintro ⟨id, hreach, hcycle⟩
    by_contra h
    obtain ⟨above, hback⟩ := exists_not_comesBack_of_reaches h hreach
    obtain ⟨above', hmem, hback'⟩ := exists_mem_not_comesBack hback hcycle
    exact hback' (.here hmem)

/-- **A graph leaves no tree exactly if there is a cycle within reach.** -/
theorem toJson?_eq_none_iff : c.toJson? = none ↔ c.Cyclic :=
  (treeAt?_eq_none_iff c.offPath_nil_le).trans comesBack_root_iff

end Content

end DebugBridge

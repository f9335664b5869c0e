import DebugBridge.Proofs.Wire.Building
import DebugBridge.Proofs.Wire.Written

/-!
# Proofs/Wire/Backward — trees whose references all point back

The writer goes depth first, and into the members of an object in the order of the keys that they
stand for. A tree is read as a graph that the writer may go through in another way: where a
reference stands before its container, the container is written in the place of the reference, and
what is inside it may stand deeper than before.

If every reference comes after the container that it names (`Json.Backward`), the writer meets each
container where it stood in the tree and each reference when it has met its container. **What is
written then nests no deeper than what was read** (`Json.Builds.nesting_le`). The walk is followed
with the set of places whose containers it has met (`Json.Met`), and a list of slots can be written
when each of them has all places before it in this set and none of its own (`Json.Ready`).
-/

namespace DebugBridge

/-- A step that leads to what is written earlier. -/
inductive PathStep.Before : PathStep → PathStep → Prop
  | item {i j : Nat} (lt : i < j) : Before (.item i) (.item j)
  | member {k l : String} (lt : Wire.unescapeKey k < Wire.unescapeKey l) :
      Before (.member k) (.member l)

/-- **A place that a walk comes to before another**: it is around the other, or where their paths
part it is on the earlier step. -/
def Path.Before (p q : Path) : Prop :=
  List.Lex PathStep.Before p q

variable {s t : PathStep} {path place rest : Path}

theorem PathStep.Before.asymm (h : s.Before t) : ¬ t.Before s := by
  intro h'
  cases h with
  | item lt =>
    cases h' with
    | item lt' => exact Nat.lt_asymm lt lt'
  | member lt =>
    cases h' with
    | member lt' => exact String.lt_irrefl _ (String.lt_trans lt lt')

/-- What comes before a step into a place comes before the place, or is the place, or is on an
earlier step into it. -/
theorem Path.Before.of_snoc (h : Path.Before place (path ++ [s])) :
    place.Before path ∨ place = path ∨ ∃ t : PathStep, t.Before s ∧ path ++ [t] <+: place := by
  induction path generalizing place with
  | nil =>
    cases h with
    | nil => exact .inr (.inl rfl)
    | @rel t more _ _ before =>
      exact .inr (.inr ⟨t, before, List.prefix_append [t] more⟩)
    | cons h => cases h
  | cons u path ih =>
    cases h with
    | nil => exact .inl .nil
    | rel before => exact .inl (.rel before)
    | @cons _ place _ h =>
      obtain h | rfl | ⟨t, before, hprefix⟩ := ih h
      · exact .inl (.cons h)
      · exact .inr (.inl rfl)
      · exact .inr (.inr ⟨t, before, (List.prefix_cons_inj u).2 hprefix⟩)

namespace Json

open Wire

variable {v w x : Json} {node : Path → NodeId} {c : Content} {P Q : Path → Prop}
  {todo : List (Path × Json)} {places : List (String × Item)} {seen seen' : Seen}
  {values : List Json}

/-- **Every reference of the tree comes after the container that it names.** -/
def Backward (v : Json) : Prop :=
  ∀ path place w, v.At path (marker (pointerFrom "" place)) → v.At place w → w.IsContainer →
    place.Before path

/-! ## What stands below a place -/

theorem At.of_append (hv : v.DistinctKeys) (hw : v.At path w) (hx : v.At (path ++ rest) x) :
    w.At rest x := by
  induction hw with
  | here => exact hx
  | inside entry _ ih =>
    obtain ⟨u, entry', later⟩ := at_cons_iff.1 hx
    obtain rfl := hv.eq_of_entry entry entry'
    exact ih (hv.entry entry) later

/-- References point back if the container that each names can be found before it. -/
theorem backward_of_markers (hv : v.DistinctKeys)
    (h : ∀ path target, v.At path (marker target) →
      ∃ place w, v.At place w ∧ pointerFrom "" place = target ∧ Path.Before place path) :
    v.Backward := by
  intro path place w hmarker hplace _
  obtain ⟨there, x, hx, hpointer, hbefore⟩ := h path _ hmarker
  obtain rfl := eq_of_pointerFrom_eq hv hplace hx hpointer.symm
  exact hbefore

/-- What stands below a place is there, or it is inside what stands there. -/
theorem eq_or_exists_entry (hv : v.DistinctKeys) (hw : v.At path w) (hx : v.At place x)
    (h : path <+: place) : place = path ∨ ∃ s u, (s, u) ∈ w.entries ∧ path ++ [s] <+: place := by
  obtain ⟨rest, rfl⟩ := h
  cases rest with
  | nil => exact .inl (List.append_nil path)
  | cons s rest =>
    obtain ⟨u, entry, -⟩ := at_cons_iff.1 (hw.of_append hv hx)
    exact .inr ⟨s, u, entry, ⟨rest, by simp⟩⟩

/-- No container stands below a place where the walk does not go on. -/
theorem not_prefix_of_inside?_eq_none (hv : v.DistinctKeys) (formed : v.Formed) (hw : v.At path w)
    (hinside : inside? "" w = none) (hx : v.At place x) (container : x.IsContainer) :
    ¬ path <+: place := by
  rintro ⟨rest, rfl⟩
  have hat := hw.of_append hv hx
  obtain ⟨y, -, rfl⟩ | ⟨target, rfl⟩ := formed.of_inside?_eq_none hw hinside
  · obtain ⟨-, rfl⟩ := hat.eq_of_entries_eq_nil (entries_scalarValue y)
    exact not_isContainer_scalarValue y container
  · cases hat with
    | here => exact not_isContainer_marker target container
    | inside entry later =>
      obtain ⟨-, rfl⟩ := eq_of_entry_marker entry
      obtain ⟨-, rfl⟩ := later.eq_of_entries_eq_nil rfl
      rcases container with ⟨_, h⟩ | ⟨_, h, -⟩ <;> cases h

/-! ## The slots of a container, in the order of the walk -/

theorem exists_forall₂ {α β : Type} {R : α → β → Prop} {l : List β} (h : ∀ y ∈ l, ∃ x, R x y) :
    ∃ l', List.Forall₂ R l' l := by
  induction l with
  | nil => exact ⟨[], .nil⟩
  | cons y l ih =>
    obtain ⟨x, hx⟩ := h y List.mem_cons_self
    obtain ⟨l', hl'⟩ := ih fun y hy => h y (List.mem_cons_of_mem _ hy)
    exact ⟨x :: l', .cons hx hl'⟩

/-- **The slots of a container stand for what is inside it, in the order of the walk.** -/
theorem BecomesNode.exists_inside {n : Node} (h : v.BecomesNode node path w n)
    (keys : ∀ members, w = .object members → (members.map fun m => unescapeKey m.1).Nodup) :
    ∃ inside : List (PathStep × Json), (∀ e, e ∈ inside ↔ e ∈ w.entries) ∧
      (inside.map (·.1)).Pairwise PathStep.Before ∧
      List.Forall₂ (fun e y => v.Becomes node (path ++ [e.1]) e.2 y) inside n.items := by
  cases h with
  | @array values items length slots =>
    refine ⟨(Json.array values).entries, fun _ => Iff.rfl, ?_, ?_⟩
    · refine List.pairwise_iff_getElem.2 fun i j hi hj hij => ?_
      simpa [entries] using PathStep.Before.item hij
    · refine List.forall₂_iff_get.2 ⟨by simp [entries, Node.items, length], fun i hi hi' => ?_⟩
      have hvalue : i < values.length := by simpa [entries] using hi
      have hitem : i < items.length := hi'
      have hslot := slots i values[i] items[i] (List.getElem?_eq_getElem hvalue)
        (List.getElem?_eq_getElem hitem)
      simpa [entries, Node.items] using hslot
  | @object members map keys' slots =>
    have nodup := keys members rfl
    have hmember : ∀ e ∈ map.entries, ∃ m : String × Json, m ∈ members ∧ unescapeKey m.1 = e.1 ∧
        v.Becomes node (path ++ [.member m.1]) m.2 e.2 := by
      intro e he
      obtain ⟨m, hm, hkey⟩ := List.mem_map.1 (keys'.mem_iff.1 (List.mem_map_of_mem he))
      obtain ⟨y, hy, hbecomes⟩ := slots m hm
      have hy' : map.get? (unescapeKey m.1) = some e.2 := KeyMap.get?_eq_some_iff.2 (hkey ▸ he)
      obtain rfl := Option.some.inj (hy.symm.trans hy')
      exact ⟨m, hm, hkey, hbecomes⟩
    obtain ⟨ordered, hordered⟩ := exists_forall₂ hmember
    obtain ⟨hsub, hpairs⟩ := (List.forall₂_and_left _ _).1 hordered
    obtain ⟨hkeys, hvalues⟩ := (KeyMap.forall₂_entries_iff
      (R := fun m y => v.Becomes node (path ++ [.member m.1]) m.2 y)
      (l := ordered.map fun m => (unescapeKey m.1, m))).1 (List.forall₂_map_left_iff.2 hpairs)
    simp only [List.map_map, Function.comp_def, List.map_id'] at hkeys hvalues
    refine ⟨ordered.map fun m => (.member m.1, m.2), fun e => ?_, ?_, ?_⟩
    · have hmem (m : String × Json) : m ∈ ordered ↔ m ∈ members := by
        refine ⟨hsub m, fun hm => ?_⟩
        have hkey : unescapeKey m.1 ∈ ordered.map fun m => unescapeKey m.1 := by
          rw [hkeys]
          exact keys'.mem_iff.2 (List.mem_map.2 ⟨m, hm, rfl⟩)
        obtain ⟨m', hm', heq⟩ := List.mem_map.1 hkey
        obtain rfl := List.inj_on_of_nodup_map nodup (hsub m' hm') hm heq
        exact hm'
      simp only [entries, List.mem_map, hmem]
    · have hsorted : (ordered.map fun m => unescapeKey m.1).Pairwise (· < ·) := by
        rw [hkeys]
        exact List.pairwise_map.2 map.sorted
      rw [List.map_map]
      exact List.pairwise_map.2 ((List.pairwise_map.1 hsorted).imp PathStep.Before.member)
    · exact List.forall₂_map_left_iff.2 hvalues

/-! ## The places met so far -/

/-- **The containers that a walk has met** are those at the places of a set. -/
def Met (v : Json) (node : Path → NodeId) (seen : Seen) (P : Path → Prop) : Prop :=
  ∀ place w, v.At place w → w.IsContainer → ((seen[node place]?).isSome ↔ P place)

/-- A set of places, and all places at or below some others. -/
def Adding (P : Path → Prop) (todo : List (Path × Json)) (place : Path) : Prop :=
  P place ∨ ∃ e ∈ todo, e.1 <+: place

/-- **What a walk can go on with** after it has met the containers at the places `P`: one place
after the other, with everything before it met and nothing of its own. -/
inductive Ready (v : Json) : (Path → Prop) → List (Path × Json) → Prop
  | nil {P : Path → Prop} : Ready v P []
  | cons {P : Path → Prop} {path : Path} {w : Json} {todo : List (Path × Json)} (here : v.At path w)
      (before : ∀ place x, v.At place x → x.IsContainer → place.Before path → P place)
      (new : ∀ place, path <+: place → ¬ P place)
      (later : Ready v (fun place => P place ∨ path <+: place) todo) : Ready v P ((path, w) :: todo)

theorem Met.congr (h : Met v node seen P)
    (hiff : ∀ place x, v.At place x → x.IsContainer → (P place ↔ Q place)) : Met v node seen Q :=
  fun place x hx container => (h place x hx container).trans (hiff place x hx container)

theorem adding_cons (P : Path → Prop) (e : Path × Json) (todo : List (Path × Json)) :
    Adding P (e :: todo) = Adding (fun place => P place ∨ e.1 <+: place) todo := by
  funext place
  simp [Adding, or_assoc]

theorem Builds.met_insert (h : v.Builds c node) (hmet : Met v node seen P) (hw : v.At path w)
    (container : w.IsContainer) (pointer : String) :
    Met v node (seen.insert (node path) pointer) fun place => P place ∨ place = path := by
  intro place x hx container'
  rw [Std.HashMap.getElem?_insert]
  by_cases heq : node path = node place
  · have hplace := h.distinct _ _ _ _ hw container hx container' heq
    simp [hplace]
  · have hne : place ≠ path := fun hplace => heq (hplace ▸ rfl)
    simpa [heq, hne] using hmet place x hx container'

/-- Steps into a container can be gone on with one after the other, in the order of the walk. -/
theorem ready_inside {inside : List (PathStep × Json)} (hat : ∀ e ∈ inside, v.At (path ++ [e.1]) e.2)
    (sorted : (inside.map (·.1)).Pairwise PathStep.Before)
    (before : ∀ e ∈ inside, ∀ place x, v.At place x → x.IsContainer →
      Path.Before place (path ++ [e.1]) →
        P place ∨ ∃ f ∈ inside, f.1.Before e.1 ∧ path ++ [f.1] <+: place)
    (new : ∀ e ∈ inside, ∀ place, path ++ [e.1] <+: place → ¬ P place) :
    Ready v P (inside.map fun e => (path ++ [e.1], e.2)) := by
  induction inside generalizing P with
  | nil => exact .nil
  | cons e inside ih =>
    obtain ⟨hfirst, hsorted⟩ := List.pairwise_cons.1 sorted
    have hearlier {f : PathStep × Json} (hf : f ∈ inside) : e.1.Before f.1 :=
      hfirst f.1 (List.mem_map_of_mem hf)
    refine .cons (hat e List.mem_cons_self) (fun place x hx container h => ?_)
      (new e List.mem_cons_self) (ih (fun f hf => hat f (List.mem_cons_of_mem e hf)) hsorted ?_ ?_)
    · obtain hP | ⟨f, hf, hlt, -⟩ := before e List.mem_cons_self place x hx container h
      · exact hP
      · obtain rfl | hf := List.mem_cons.1 hf
        · exact absurd hlt hlt.asymm
        · exact absurd hlt (hearlier hf).asymm
    · intro f hf place x hx container h
      obtain hP | ⟨g, hg, hlt, hprefix⟩ :=
        before f (List.mem_cons_of_mem e hf) place x hx container h
      · exact .inl (.inl hP)
      · obtain rfl | hg := List.mem_cons.1 hg
        · exact .inl (.inr hprefix)
        · exact .inr ⟨g, hg, hlt, hprefix⟩
    · rintro f hf place hprefix (hP | hown)
      · exact new f (List.mem_cons_of_mem e hf) place hprefix hP
      · have hsame : path ++ [e.1] = path ++ [f.1] :=
          (List.prefix_of_prefix_length_le hown hprefix (by simp)).eq_of_length (by simp)
        obtain heq : e.1 = f.1 := by simpa using hsame
        have hlt := hearlier hf
        rw [heq] at hlt
        exact hlt.asymm hlt

theorem ready_inside_container {inside : List (PathStep × Json)} (keys : v.DistinctKeys)
    (hw : v.At path w) (hinside : ∀ e, e ∈ inside ↔ e ∈ w.entries)
    (sorted : (inside.map (·.1)).Pairwise PathStep.Before)
    (before : ∀ place x, v.At place x → x.IsContainer → place.Before path → P place)
    (new : ∀ place, path <+: place → ¬ P place) :
    Ready v (fun place => P place ∨ place = path) (inside.map fun e => (path ++ [e.1], e.2)) := by
  refine ready_inside (fun e he => hw.snoc ((hinside e).1 he)) sorted ?_ ?_
  · intro e _ place x hx container h
    obtain h | rfl | ⟨t, hlt, hprefix⟩ := h.of_snoc
    · exact .inl (.inl (before place x hx container h))
    · exact .inl (.inr rfl)
    · obtain ⟨more, rfl⟩ := hprefix
      rw [List.append_assoc] at hx
      obtain ⟨u, entry, -⟩ := at_cons_iff.1 (hw.of_append keys hx)
      exact .inr ⟨(t, u), (hinside _).2 entry, hlt, List.prefix_append _ _⟩
  · rintro e - place hprefix (hP | rfl)
    · exact new place ((List.prefix_append path [e.1]).trans hprefix) hP
    · have hlength := hprefix.length_le
      rw [List.length_append, List.length_singleton] at hlength
      exact absurd hlength (Nat.not_succ_le_self _)

/-- After a container and what is inside it, everything at and below its place has been met. -/
theorem adding_inside_iff {inside : List (PathStep × Json)} (keys : v.DistinctKeys)
    (hw : v.At path w) (hinside : ∀ e, e ∈ inside ↔ e ∈ w.entries) (hx : v.At place x) :
    Adding (fun place => P place ∨ place = path) (inside.map fun e => (path ++ [e.1], e.2)) place ↔
      P place ∨ path <+: place := by
  constructor
  · rintro ((hP | rfl) | ⟨e, he, hprefix⟩)
    · exact .inl hP
    · exact .inr List.prefix_rfl
    · obtain ⟨f, -, rfl⟩ := List.mem_map.1 he
      exact .inr ((List.prefix_append path [f.1]).trans hprefix)
  · rintro (hP | hprefix)
    · exact .inl (.inl hP)
    · obtain rfl | ⟨s, u, entry, hprefix⟩ := eq_or_exists_entry keys hw hx hprefix
      · exact .inl (.inr rfl)
      · exact .inr ⟨_, List.mem_map.2 ⟨(s, u), (hinside _).2 entry, rfl⟩, hprefix⟩

/-! ## The walk -/

theorem inside?_scalarValue (y : Item) : inside? "" (scalarValue y) = none := by
  cases y <;> rfl

theorem Becomes.eq_of_isScalar {y : Item} (h : v.Becomes node path w y) (hy : y.IsScalar) :
    w = scalarValue y := by
  cases h with
  | scalar _ => rfl
  | container _ | reference _ _ => exact absurd rfl (hy _)

/-- The next place that a walk goes on with, and what its slot stands for. -/
theorem Ready.uncons {p : String × Item} (ready : Ready v P todo)
    (slots : List.Forall₂ (fun e p => v.Becomes node e.1 e.2 p.2) todo (p :: places)) :
    ∃ path w later, todo = (path, w) :: later ∧ v.At path w ∧ v.Becomes node path w p.2 ∧
      (∀ place x, v.At place x → x.IsContainer → place.Before path → P place) ∧
      (∀ place, path <+: place → ¬ P place) ∧
      Ready v (fun place => P place ∨ path <+: place) later ∧
      List.Forall₂ (fun e p => v.Becomes node e.1 e.2 p.2) later places := by
  cases slots with
  | cons slot slots =>
    cases ready with
    | cons here before new later => exact ⟨_, _, _, rfl, here, slot, before, new, later, slots⟩

/-- A link is to the container that stands there, or to the one that a marker names. -/
theorem Becomes.of_node {id : NodeId} (h : v.Becomes node path w (.node id)) :
    (w.IsContainer ∧ id = node path) ∨ ∃ place x, v.At place x ∧ x.IsContainer ∧
      w = marker (pointerFrom "" place) ∧ id = node place := by
  cases h with
  | scalar hscalar => exact absurd rfl (hscalar id)
  | container container => exact .inl ⟨container, rfl⟩
  | reference there container => exact .inr ⟨_, _, there, container, rfl, rfl⟩

theorem IsContainer.nesting_written_le {n : Node} {inside : List (PathStep × Json)}
    (container : w.IsContainer) (hinside : ∀ e ∈ inside, e ∈ w.entries)
    (h : List.Forall₂ (fun u e => u.nesting ≤ e.2.nesting) values inside) :
    (written n values).nesting ≤ w.nesting := by
  obtain ⟨depth, hdepth⟩ : ∃ depth, w.nesting = depth + 1 := by
    obtain ⟨items, rfl⟩ | ⟨members, rfl, -⟩ := container
    · exact ⟨_, rfl⟩
    · exact ⟨_, rfl⟩
  have hvalues : ∀ u ∈ values, u.nesting ≤ depth := by
    induction h with
    | nil => exact List.forall_mem_nil _
    | @cons u e _ _ head _ ih =>
      have hlt := nesting_lt_of_mem_children (mem_children_of_entry (hinside e List.mem_cons_self))
      exact List.forall_mem_cons.2
        ⟨by omega, ih fun f hf => hinside f (List.mem_cons_of_mem e hf)⟩
  rw [hdepth]
  exact nesting_le_succ fun u hu => hvalues u (mem_of_mem_children_written hu)

/-- **A walk over what a tree was read as** writes nothing that nests deeper than what stood there,
and meets everything at and below the places of its slots, as long as every reference points
back. -/
theorem Builds.walk (h : v.Builds c node) (keys : v.Unambiguous) (formed : v.Formed)
    (backward : v.Backward) (walk : Writes c places seen values seen') (met : Met v node seen P)
    (ready : Ready v P todo)
    (slots : List.Forall₂ (fun e p => v.Becomes node e.1 e.2 p.2) todo places) :
    List.Forall₂ (fun u e => u.nesting ≤ e.2.nesting) values todo ∧
      Met v node seen' (Adding P todo) := by
  have distinct := keys.distinctKeys
  -- a scalar or a marker adds no place
  have hpass {path : Path} {w : Json} {P : Path → Prop} {seen : Seen} (hw : v.At path w)
      (hinside : inside? "" w = none) (met : Met v node seen P) :
      Met v node seen fun place => P place ∨ path <+: place :=
    met.congr fun place x hx container => by
      simp [not_prefix_of_inside?_eq_none distinct formed hw hinside hx container]
  induction walk generalizing P todo with
  | nil =>
    cases slots
    exact ⟨.nil, met.congr fun place _ _ _ => by simp [Adding]⟩
  | scalar hy _ ih =>
    obtain ⟨path, w, todo, rfl, here, slot, -, -, later, others⟩ := ready.uncons slots
    obtain rfl := slot.eq_of_isScalar hy
    obtain ⟨hnesting, hmet⟩ := ih (hpass here (inside?_scalarValue _) met) later others
    exact ⟨.cons (Nat.le_refl _) hnesting, adding_cons P _ todo ▸ hmet⟩
  | again known _ ih =>
    obtain ⟨path, w, todo, rfl, here, slot, -, new, later, others⟩ := ready.uncons slots
    obtain ⟨container, rfl⟩ | ⟨there, x, -, -, rfl, rfl⟩ := slot.of_node
    · have hP : P path := (met path w here container).1 (by simp [known])
      exact absurd hP (new path List.prefix_rfl)
    · obtain ⟨hnesting, hmet⟩ := ih (hpass here (inside?_marker _ _) met) later others
      exact ⟨.cons (Nat.le_refl _) hnesting, adding_cons P _ todo ▸ hmet⟩
  | missing unknown none _ _ =>
    obtain ⟨path, w, todo, rfl, here, slot, -⟩ := ready.uncons slots
    obtain ⟨container, rfl⟩ | ⟨there, x, hx, container, rfl, rfl⟩ := slot.of_node
    · obtain ⟨n, hn, -⟩ := h.nodes path w here container
      cases none.symm.trans hn
    · obtain ⟨n, hn, -⟩ := h.nodes there x hx container
      cases none.symm.trans hn
  | @enter place id n rest seen seen' seen'' inside values unknown some _ _ ihwithin ihlater =>
    obtain ⟨path, w, todo, rfl, here, slot, before, new, later, others⟩ := ready.uncons slots
    obtain ⟨container, rfl⟩ | ⟨there, x, hx, container, rfl, rfl⟩ := slot.of_node
    · obtain ⟨n', hn, hnode⟩ := h.nodes path w here container
      obtain rfl := Option.some.inj (some.symm.trans hn)
      obtain ⟨entries, hentries, sorted, hslots⟩ := hnode.exists_inside fun members heq =>
        keys path members (heq ▸ here)
      have hplaces : List.Forall₂ (fun e p => v.Becomes node e.1 e.2 p.2)
          (entries.map fun e => (path ++ [e.1], e.2)) (slotPlaces place n) := by
        rw [← map_snd_slotPlaces place n] at hslots
        exact List.forall₂_map_left_iff.2 (List.forall₂_map_right_iff.1 hslots)
      obtain ⟨hinside, hmet⟩ := ihwithin (h.met_insert met here container place)
        (ready_inside_container distinct here hentries sorted before new) hplaces
      obtain ⟨hnesting, hmet'⟩ := ihlater (hmet.congr fun place x hx _ =>
        adding_inside_iff distinct here hentries hx) later others
      have hlevels : List.Forall₂ (fun u e => u.nesting ≤ e.2.nesting) inside entries := by
        simpa only [List.forall₂_map_right_iff] using hinside
      have hle : (written n inside).nesting ≤ w.nesting :=
        container.nesting_written_le (fun e => (hentries e).1) hlevels
      exact ⟨.cons hle hnesting, adding_cons P _ todo ▸ hmet'⟩
    · -- the container that the reference names stands before it, so the walk has met it
      have hP := before there x hx container (backward path there x here hx container)
      have hmet := (met there x hx container).2 hP
      rw [unknown] at hmet
      cases hmet

/-- **What is written of a tree whose references all point back nests no deeper than the tree.** -/
theorem Builds.nesting_le (h : v.Builds c node) (keys : v.Unambiguous) (formed : v.Formed)
    (backward : v.Backward) (written : c.WrittenAs w) : w.nesting ≤ v.nesting := by
  obtain ⟨seen', walk⟩ := written
  have met : Met v node ∅ fun _ => False := fun _ _ _ _ => by simp
  have ready : Ready v (fun _ => False) [([], v)] :=
    .cons (.here v) (fun _ _ _ _ h => nomatch h) (fun _ _ => id) .nil
  obtain ⟨hnesting, -⟩ := h.walk keys formed backward walk met ready (.cons h.root .nil)
  cases hnesting with
  | cons hle _ => exact hle

end Json

end DebugBridge

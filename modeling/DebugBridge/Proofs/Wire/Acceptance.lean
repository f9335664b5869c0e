import DebugBridge.Proofs.Wire.Writing

/-!
# Proofs/Wire/Acceptance — the trees that are read

A tree with references is read when every object with the key of a reference is a marker, and every
marker names the place of a container (`Json.WellReferenced`). The reader finds this out by walks
over the tree, which all go the same way: into the containers, and nowhere else. A walk of this kind
collects what stands at the places of the tree (`Collects.mem_iff`), so the pointers that it finds
are those of the containers and the targets are those of the markers. With that `exists_decode_iff`
says **which trees are read**, and `decode_cases` what is said of the others.
-/

namespace DebugBridge

namespace Wire

/-! ## Kinds of objects -/

theorem lookup_refKey_eq_none_iff {members : List (String × Json)} :
    members.lookup refKey = none ↔ refKey ∉ members.map (·.1) := by
  rw [List.lookup_eq_none_iff, List.mem_map]
  constructor
  · rintro h ⟨m, hm, heq⟩
    simpa [heq] using h m hm
  · intro h m hm
    simpa using fun heq => h ⟨m, hm, heq.symm⟩

/-- An object is plain when it has not the key of a reference. -/
theorem objectKind_eq_plain_iff {members : List (String × Json)} :
    objectKind members = .plain ↔ refKey ∉ members.map (·.1) := by
  rw [← lookup_refKey_eq_none_iff]
  unfold objectKind
  split
  · next h => exact iff_of_true rfl h
  · next h => exact iff_of_false nofun (by rw [h]; nofun)
  · next h => exact iff_of_false nofun (by rw [h]; nofun)

/-- An object is a reference when that key is the only one, and has a text. -/
theorem objectKind_eq_reference_iff {members : List (String × Json)} {target : String} :
    objectKind members = .reference target ↔ members = [(refKey, .string target)] := by
  constructor
  · intro h
    unfold objectKind at h
    split at h
    · cases h
    · next target' m hlookup =>
      obtain ⟨key, value⟩ := m
      rw [KeyMap.lookup_cons_ite] at hlookup
      split at hlookup
      · next hkey =>
        cases h
        rw [← hkey, Option.some.inj hlookup]
      · cases hlookup
    · cases h
  · rintro rfl
    simp [objectKind]

theorem target?_eq_some_iff {v : Json} {target : String} :
    target? v = some target ↔ v = marker target := by
  rw [marker]
  cases v with
  | object members =>
    rw [Json.object.injEq, ← objectKind_eq_reference_iff, target?]
    split <;> simp_all
  | null | bool _ | number _ | string _ | array _ => simp [target?]

end Wire

namespace Json

open Wire

variable {v w x : Json} {s : PathStep} {path : Path}

/-! ## Well-referenced trees -/

/-- An array, or an object that is no reference marker. -/
def IsContainer (v : Json) : Prop :=
  (∃ values, v = .array values) ∨ ∃ members, v = .object members ∧ ∀ target, v ≠ marker target

/-- **Every object with the key of a reference has no other, and has a text under it.** -/
def Formed (v : Json) : Prop :=
  ∀ path members, v.At path (.object members) → refKey ∈ members.map (·.1) →
    ∃ target, members = [(refKey, .string target)]

/-- Whether the pointer of a container is `target`. -/
def Locates (v : Json) (target : String) : Prop :=
  ∃ path w, v.At path w ∧ w.IsContainer ∧ pointerFrom "" path = target

/-- **A tree whose references all name containers in it.** -/
structure WellReferenced (v : Json) : Prop where
  formed : v.Formed
  root : ∀ target, v ≠ marker target
  located : ∀ path target, v.At path (marker target) → v.Locates target

theorem Formed.entry (h : v.Formed) (entry : (s, w) ∈ v.entries) : w.Formed :=
  fun path members hat => h (s :: path) members (.inside entry hat)

theorem entries_scalarValue (x : Item) : (scalarValue x).entries = [] := by
  cases x <;> rfl

/-- A marker holds its text and nothing else. -/
theorem eq_of_entry_marker {target : String} (h : (s, w) ∈ (marker target).entries) :
    s = .member refKey ∧ w = .string target := by
  simpa [marker, entries] using h

theorem inside?_marker (pointer target : String) : inside? pointer (marker target) = none := by
  simp [inside?, marker, objectKind_marker]

/-- A walk goes into containers only. -/
theorem isContainer_of_inside? {pointer : String} {inside : List (String × Json)}
    (h : inside? pointer v = some inside) : v.IsContainer := by
  cases v with
  | array values => exact .inl ⟨values, rfl⟩
  | object members =>
    refine .inr ⟨members, rfl, fun target heq => ?_⟩
    rw [heq, inside?_marker] at h
    cases h
  | null | bool _ | number _ | string _ => cases h

/-- What a walk does not go into. -/
theorem of_inside?_eq_none {pointer : String} (h : inside? pointer v = none) :
    (∃ x : Item, x.IsScalar ∧ v = scalarValue x) ∨ (∃ target, v = marker target) ∨
      ∃ members, v = .object members ∧ objectKind members = .malformed := by
  cases v with
  | null => exact .inl ⟨.null, fun _ => nofun, rfl⟩
  | bool value => exact .inl ⟨.bool value, fun _ => nofun, rfl⟩
  | number n => exact .inl ⟨.number n, fun _ => nofun, rfl⟩
  | string text => exact .inl ⟨.string text, fun _ => nofun, rfl⟩
  | array values => cases h
  | object members =>
    cases hkind : objectKind members with
    | plain => simp [inside?, hkind] at h
    | reference target =>
      exact .inr (.inl ⟨target, congrArg object (objectKind_eq_reference_iff.1 hkind)⟩)
    | malformed => exact .inr (.inr ⟨members, rfl, hkind⟩)

theorem not_isContainer_scalarValue (x : Item) : ¬(scalarValue x).IsContainer := by
  rintro (⟨values, h⟩ | ⟨members, h, -⟩)
  all_goals cases x <;> cases h

theorem not_isContainer_marker (target : String) : ¬(marker target).IsContainer := by
  rintro (⟨values, h⟩ | ⟨members, -, h⟩)
  · cases h
  · exact h target rfl

/-- In a tree whose markers are well-formed, nothing but a marker or a malformed object is passed
over. -/
theorem Formed.not_malformed (h : v.Formed) {members : List (String × Json)}
    (hat : v.At path (.object members)) : objectKind members ≠ .malformed := by
  intro hmalformed
  by_cases hkey : refKey ∈ members.map (·.1)
  · obtain ⟨target, rfl⟩ := h path members hat hkey
    rw [objectKind_marker] at hmalformed
    cases hmalformed
  · rw [objectKind_eq_plain_iff.2 hkey] at hmalformed
    cases hmalformed

/-- So what is passed over at a place is a scalar or a marker. -/
theorem Formed.of_inside?_eq_none (h : v.Formed) (hat : v.At path w) {pointer : String}
    (hinside : inside? pointer w = none) :
    (∃ x : Item, x.IsScalar ∧ w = scalarValue x) ∨ ∃ target, w = marker target := by
  obtain hscalar | hmarker | ⟨members, rfl, hmalformed⟩ := Json.of_inside?_eq_none hinside
  · exact .inl hscalar
  · exact .inr hmarker
  · exact absurd hmalformed (h.not_malformed hat)

/-- What stands inside something that is passed over is the text of a marker. -/
theorem Formed.eq_string_of_entry (h : v.Formed) {pointer : String}
    (hinside : inside? pointer v = none) {s : PathStep} (entry : (s, w) ∈ v.entries) :
    ∃ target, w = .string target := by
  obtain ⟨x, -, rfl⟩ | ⟨target, rfl⟩ := h.of_inside?_eq_none (.here v) hinside
  · exact absurd entry (by simp [entries_scalarValue])
  · exact ⟨target, (eq_of_entry_marker entry).2⟩

theorem itemPlaces_eq {α : Type} (pointer : String) (index : Nat) (l : List α) :
    itemPlaces pointer index l = l.mapIdx fun i x => (itemAt pointer (index + i), x) := by
  induction l generalizing index with
  | nil => rfl
  | cons x l ih => simp [itemPlaces, List.mapIdx_cons, ih, Nat.add_right_comm, Nat.add_assoc]

/-- The places inside a container are one step further, wherever it stands. -/
theorem inside?_eq_some {pointer : String} {inside : List (String × Json)}
    (h : inside? pointer v = some inside) (start : String) :
    inside? start v = some (v.entries.map fun e => (stepFrom start e.1, e.2)) := by
  cases v with
  | array values =>
    refine congrArg some (List.ext_getElem? fun i => ?_)
    simp [itemPlaces_eq, entries, stepFrom, Function.comp_def]
  | object members =>
    simp only [inside?] at h ⊢
    split at h <;> cases h
    simp [memberPlaces, entries, stepFrom]
  | null | bool _ | number _ | string _ => cases h

theorem mem_inside?_iff {pointer : String} {inside : List (String × Json)}
    (h : inside? pointer v = some inside) {c : String × Json} :
    c ∈ inside ↔ ∃ s, (s, c.2) ∈ v.entries ∧ stepFrom pointer s = c.1 := by
  obtain rfl := Option.some.inj (h.symm.trans (inside?_eq_some h pointer))
  rw [List.mem_map]
  constructor
  · rintro ⟨⟨s, w⟩, entry, rfl⟩
    exact ⟨s, entry, rfl⟩
  · rintro ⟨s, entry, hplace⟩
    exact ⟨(s, c.2), entry, Prod.ext hplace rfl⟩

end Json

/-! ## What a walk collects -/

namespace Wire

variable {v : Json} {f own : Json → String → List String}

/-- **A walk** that collects what each value gives at its place, and goes on with what is inside. -/
structure Collects (f own : Json → String → List String) : Prop where
  walk : ∀ v pointer,
    f v pointer = own v pointer ++ ((inside? pointer v).getD []).flatMap fun c => f c.2 c.1
  /-- The text of a marker gives nothing. -/
  text : ∀ target pointer, own (.string target) pointer = []

/-- **A walk over a tree whose markers are well-formed misses no place.** -/
theorem Collects.mem_iff (h : Collects f own) (hv : v.Formed) (pointer : String)
    {q : String} : q ∈ f v pointer ↔ ∃ path w, v.At path w ∧ q ∈ own w (pointerFrom pointer path) := by
  induction v using Json.inductionOn generalizing pointer with
  | h v ih =>
    have hinside {s : PathStep} {w : Json} (entry : (s, w) ∈ v.entries) :
        q ∈ f w (stepFrom pointer s) ↔
          ∃ path x, w.At path x ∧ q ∈ own x (pointerFrom pointer (s :: path)) :=
      ih w (Json.mem_children_of_entry entry) (hv.entry entry) _
    rw [h.walk, List.mem_append, List.mem_flatMap]
    constructor
    · rintro (hown | ⟨c, hc, hq⟩)
      · exact ⟨[], v, .here v, hown⟩
      · cases hv' : inside? pointer v with
        | none => simp [hv'] at hc
        | some inside =>
          rw [hv', Option.getD_some] at hc
          obtain ⟨s, entry, hplace⟩ := (Json.mem_inside?_iff hv').1 hc
          obtain ⟨path, x, hat, hx⟩ := (hinside entry).1 (hplace ▸ hq)
          exact ⟨s :: path, x, .inside entry hat, hx⟩
    · rintro ⟨path, x, hat, hq⟩
      cases hat with
      | here => exact .inl hq
      | @inside _ w _ s path entry later =>
        cases hv' : inside? pointer v with
        | some inside =>
          refine .inr ⟨(stepFrom pointer s, w), ?_, (hinside entry).2 ⟨path, x, later, hq⟩⟩
          exact (Json.mem_inside?_iff hv').2 ⟨s, entry, rfl⟩
        | none =>
          obtain ⟨target, rfl⟩ := hv.eq_string_of_entry hv' entry
          obtain ⟨rfl, rfl⟩ := later.eq_of_entries_eq_nil rfl
          exact absurd hq (by simp [h.text])

theorem collects_pointers :
    Collects pointers fun v pointer => if (inside? pointer v).isSome then [pointer] else [] where
  walk v pointer := by
    rw [pointers_eq]
    cases inside? pointer v <;> simp
  text _ _ := rfl

/-- Nothing that a walk goes into is a marker. -/
theorem target?_of_inside? {pointer : String} {inside : List (String × Json)}
    (h : inside? pointer v = some inside) : target? v = none := by
  rw [Option.eq_none_iff_forall_ne_some]
  intro target htarget
  rw [target?_eq_some_iff.1 htarget, Json.inside?_marker] at h
  cases h

theorem collects_targets : Collects (fun v _ => targets v) fun v _ => (target? v).toList where
  walk v pointer := by
    cases h : inside? pointer v with
    | some inside =>
      rw [targets_of_inside? h, target?_of_inside? h]
      simp [List.flatMap_map]
    | none =>
      rcases Json.of_inside?_eq_none h with ⟨x, -, rfl⟩ | ⟨target, rfl⟩ | ⟨_, rfl, hmalformed⟩
      · cases x <;> rfl
      · have hmarker := target?_eq_some_iff.2 (Eq.refl (marker target))
        rw [(targets_of_target? hmarker pointer).1, hmarker]
        rfl
      · simp [targets, target?, hmalformed]
  text _ _ := rfl

/-- The pointers of a tree are those of its containers. -/
theorem mem_pointers_iff (hv : v.Formed) {pointer q : String} :
    q ∈ pointers v pointer ↔
      ∃ path w, v.At path w ∧ w.IsContainer ∧ pointerFrom pointer path = q := by
  rw [collects_pointers.mem_iff hv pointer]
  refine exists_congr fun path => exists_congr fun w => and_congr_right fun hat => ?_
  have hkind : (inside? (pointerFrom pointer path) w).isSome ↔ w.IsContainer := by
    cases hw : inside? (pointerFrom pointer path) w with
    | some inside => simp [Json.isContainer_of_inside? hw]
    | none =>
      obtain ⟨x, -, rfl⟩ | ⟨target, rfl⟩ := hv.of_inside?_eq_none hat hw
      · simp [Json.not_isContainer_scalarValue]
      · simp [Json.not_isContainer_marker]
  by_cases hw : w.IsContainer
  · simp [hkind.2 hw, hw, eq_comm]
  · simp [mt hkind.1 hw, hw]

/-- The targets of a tree are those of its markers. -/
theorem mem_targets_iff (hv : v.Formed) {target : String} :
    target ∈ targets v ↔ ∃ path, v.At path (marker target) := by
  rw [show target ∈ targets v ↔ _ from collects_targets.mem_iff hv ""]
  simp only [Option.mem_toList, target?_eq_some_iff]
  exact exists_congr fun path => ⟨fun ⟨_, hat, heq⟩ => heq ▸ hat, fun hat => ⟨_, hat, rfl⟩⟩

/-! ## Malformed markers -/

/-- The pointer that is found is that of a malformed marker. -/
theorem exists_at_of_malformedAt? {pointer q : String} (h : malformedAt? v pointer = some q) :
    ∃ path members, v.At path (.object members) ∧ objectKind members = .malformed ∧
      pointerFrom pointer path = q := by
  induction v using Json.inductionOn generalizing pointer with
  | h v ih =>
    cases hv : inside? pointer v with
    | some inside =>
      rw [malformedAt?_of_inside? hv] at h
      obtain ⟨c, hc, hfound⟩ := List.exists_of_findSome?_eq_some h
      obtain ⟨s, entry, hplace⟩ := (Json.mem_inside?_iff hv).1 hc
      obtain ⟨path, members, hat, hmalformed, rfl⟩ :=
        ih c.2 (Json.mem_children_of_entry entry) hfound
      refine ⟨s :: path, members, .inside entry hat, hmalformed, ?_⟩
      rw [pointerFrom_cons, hplace]
    | none =>
      rcases Json.of_inside?_eq_none hv with ⟨x, -, rfl⟩ | ⟨target, rfl⟩ | ⟨members, rfl, hmalformed⟩
      · cases x <;> cases h
      · simp [malformedAt?, marker, objectKind_marker] at h
      · simp only [malformedAt?, hmalformed, Option.some.injEq] at h
        exact ⟨[], members, .here _, hmalformed, h⟩

/-- A malformed marker anywhere is found. -/
theorem malformedAt?_ne_none {path : Path} {members : List (String × Json)}
    (hat : v.At path (.object members)) (hmalformed : objectKind members = .malformed)
    (pointer : String) : malformedAt? v pointer ≠ none := by
  generalize hx : Json.object members = x at hat
  induction hat generalizing pointer with
  | here =>
    subst hx
    simp [malformedAt?, hmalformed]
  | @inside v w x s path entry later ih =>
    cases hv : inside? pointer v with
    | some inside =>
      rw [malformedAt?_of_inside? hv, Ne, List.findSome?_eq_none_iff]
      intro h
      have hmem : (stepFrom pointer s, w) ∈ inside := (Json.mem_inside?_iff hv).2 ⟨s, entry, rfl⟩
      exact ih _ hx (h _ hmem)
    | none =>
      rcases Json.of_inside?_eq_none hv with ⟨x, -, rfl⟩ | ⟨target, rfl⟩ | ⟨_, rfl, hmalformed⟩
      · exact absurd entry (by simp [Json.entries_scalarValue])
      · obtain ⟨rfl, rfl⟩ := Json.eq_of_entry_marker entry
        obtain ⟨-, rfl⟩ := later.eq_of_entries_eq_nil rfl
        cases hx
      · simp [malformedAt?, hmalformed]

theorem malformedAt?_eq_none_iff {pointer : String} :
    malformedAt? v pointer = none ↔ v.Formed := by
  constructor
  · intro h path members hat hkey
    cases hkind : objectKind members with
    | plain => exact absurd hkey (objectKind_eq_plain_iff.1 hkind)
    | reference target => exact ⟨target, objectKind_eq_reference_iff.1 hkind⟩
    | malformed => exact absurd h (malformedAt?_ne_none hat hkind pointer)
  · intro hv
    rw [Option.eq_none_iff_forall_ne_some]
    intro q hq
    obtain ⟨path, members, hat, hmalformed, -⟩ := exists_at_of_malformedAt? hq
    exact hv.not_malformed hat hmalformed

end Wire

/-! ## Acceptance -/

namespace Content

open Wire

variable {v : Json}

/-- A tree with a malformed marker is refused for the first one. -/
theorem decode_of_malformed {pointer : String} (h : malformedAt? v "" = some pointer) :
    decode v = .error (.malformedReference pointer) := by
  simp only [decode, h]
  rfl

/-- A tree is refused for a target that is the pointer of no container. -/
theorem exists_decode_eq_unresolved (hmarkers : malformedAt? v "" = none)
    (h : ∃ target ∈ targets v, target ∉ pointers v "") :
    ∃ target ∈ targets v, target ∉ pointers v "" ∧
      decode v = .error (.unresolvedReference target) := by
  cases hroot : target? v with
  | some target =>
    obtain ⟨htargets, hpointers⟩ := targets_of_target? hroot ""
    refine ⟨target, by simp [htargets], by simp [hpointers], ?_⟩
    simp only [decode, hmarkers, hroot]
    rfl
  | none =>
    obtain ⟨target, htarget, hmissing⟩ := h
    cases hfind : (targets v).find? fun target => !(pointers v "").contains target with
    | none => exact absurd (List.find?_eq_none.1 hfind target htarget) (by simpa using hmissing)
    | some found =>
      refine ⟨found, List.mem_of_find?_eq_some hfind, ?_, ?_⟩
      · simpa using List.find?_some hfind
      · simp only [decode, hmarkers, hroot, hfind]
        rfl

/-- The three ways in which reading ends. -/
theorem decode_cases (v : Json) :
    (¬v.Formed ∧ ∃ path members, v.At path (.object members) ∧ objectKind members = .malformed ∧
      decode v = .error (.malformedReference (pointerFrom "" path))) ∨
    (v.Formed ∧ ¬v.WellReferenced ∧ ∃ path target, v.At path (marker target) ∧
      ¬v.Locates target ∧ decode v = .error (.unresolvedReference target)) ∨
    (v.WellReferenced ∧ decode v = .ok ⟨(Wire.nodes (pointers v "").idxOf 0 v).toArray,
      slot (pointers v "").idxOf 0 v⟩) := by
  cases hmarkers : malformedAt? v "" with
  | some pointer =>
    obtain ⟨path, members, hat, hmalformed, rfl⟩ := exists_at_of_malformedAt? hmarkers
    refine .inl ⟨fun hv => hv.not_malformed hat hmalformed, path, members, hat, hmalformed, ?_⟩
    exact decode_of_malformed hmarkers
  | none =>
    have hv : v.Formed := malformedAt?_eq_none_iff.1 hmarkers
    have hlocates (target : String) : target ∈ pointers v "" ↔ v.Locates target :=
      mem_pointers_iff hv
    by_cases h : ∃ target ∈ targets v, target ∉ pointers v ""
    · obtain ⟨target, htarget, hmissing, hdecode⟩ := exists_decode_eq_unresolved hmarkers h
      obtain ⟨path, hat⟩ := (mem_targets_iff hv).1 htarget
      rw [hlocates] at hmissing
      exact .inr (.inl ⟨hv, fun w => hmissing (w.located path target hat), path, target, hat,
        hmissing, hdecode⟩)
    · have htargets : ∀ target ∈ targets v, target ∈ pointers v "" := by simpa using h
      have hroot : target? v = none := by
        rw [Option.eq_none_iff_forall_ne_some]
        intro target htarget
        obtain ⟨hown, hpointers⟩ := targets_of_target? htarget ""
        simpa [hpointers] using htargets target (by simp [hown])
      refine .inr (.inr ⟨⟨hv, fun target heq => ?_, fun path target hat => ?_⟩,
        decode_eq_ok hmarkers hroot htargets⟩)
      · rw [target?_eq_some_iff.2 heq] at hroot
        cases hroot
      · exact (hlocates target).1 (htargets target ((mem_targets_iff hv).2 ⟨path, hat⟩))

/-- **The trees that are read** are the well-referenced ones. -/
theorem exists_decode_iff : (∃ c, decode v = .ok c) ↔ v.WellReferenced := by
  rcases decode_cases v with ⟨hv, _, _, _, _, h⟩ | ⟨_, hv, _, _, _, _, h⟩ | ⟨hv, h⟩
  · exact iff_of_false (by simp [h]) fun w => hv w.formed
  · exact iff_of_false (by simp [h]) hv
  · exact iff_of_true ⟨_, h⟩ hv

/-- What is read has a node for each container, in document order. -/
theorem eq_of_decode_eq_ok {c : Content} (h : decode v = .ok c) :
    c = ⟨(Wire.nodes (pointers v "").idxOf 0 v).toArray, slot (pointers v "").idxOf 0 v⟩ := by
  rcases decode_cases v with ⟨_, _, _, _, _, h'⟩ | ⟨_, _, _, _, _, _, h'⟩ | ⟨_, h'⟩
  · cases h.symm.trans h'
  · cases h.symm.trans h'
  · exact Except.ok.inj (h.symm.trans h')

/-- Reading never finds a tree too deep. -/
theorem decode_ne_tooDeep (v : Json) (depth : Nat) : decode v ≠ .error (.tooDeep depth) := by
  rcases decode_cases v with ⟨_, _, _, _, _, h⟩ | ⟨_, _, _, _, _, _, h⟩ | ⟨_, h⟩
  all_goals
    rw [h]
    nofun

end Content

end DebugBridge

import DebugBridge.Proofs.Json.Children
import DebugBridge.Proofs.Wire.Pointer
import Mathlib.Data.List.Nodup

/-!
# Proofs/Json/Place — places in a tree, as paths and as pointers

A place in a tree is named in two ways: by the path of steps that leads to it, which is data, and by
its pointer, which is the text of that path. `Json.At` says what stands at a path. It is what the
references of a tree are about, and it says so without any walk over the tree.

References hold the text only, so they name one place each only if the text gives the path back:
where no object has two members under one key, **places with one pointer are one place**
(`eq_of_pointerFrom_eq`).
-/

namespace DebugBridge

/-- A step into a container: to an item by its index, or to a member by its key. -/
inductive PathStep where
  | item (index : Nat)
  | member (key : String)
  deriving DecidableEq, Repr

/-- A place in a tree: the steps that lead to it from the root. -/
abbrev Path := List PathStep

namespace Wire

/-- A step as it is written in a pointer. -/
def stepText : PathStep → String
  | .item index => toString index
  | .member key => token key

/-- The pointer of a place, one step after the place with the pointer `start`. -/
def stepFrom (start : String) : PathStep → String
  | .item index => itemAt start index
  | .member key => memberAt start key

/-- **The pointer of the place that a path leads to** from the place with the pointer `start`. -/
def pointerFrom (start : String) (path : Path) : String :=
  path.foldl stepFrom start

/-- A step adds its text to a pointer. -/
theorem stepFrom_eq (start : String) (s : PathStep) : stepFrom start s = step start (stepText s) := by
  cases s <;> rfl

/-- The text of a step has no slash. -/
theorem not_slash_mem_stepText (s : PathStep) : '/' ∉ (stepText s).toList := by
  cases s with
  | item index => exact not_slash_mem_index index
  | member key => exact not_slash_mem_token key

@[simp] theorem pointerFrom_nil (start : String) : pointerFrom start [] = start := rfl

@[simp] theorem pointerFrom_cons (start : String) (s : PathStep) (path : Path) :
    pointerFrom start (s :: path) = pointerFrom (stepFrom start s) path := rfl

/-- The pointer of a path that goes on is that of the rest, from where the path leads. -/
theorem pointerFrom_append (start : String) (path rest : Path) :
    pointerFrom start (path ++ rest) = pointerFrom (pointerFrom start path) rest :=
  List.foldl_append

/-- A path leads below where it starts. -/
theorem below_pointerFrom (start : String) (path : Path) : Below start (pointerFrom start path) := by
  induction path generalizing start with
  | nil => exact below_refl start
  | cons s path ih =>
    have hinside : Below (stepFrom start s) (pointerFrom start (s :: path)) := ih (stepFrom start s)
    rw [stepFrom_eq] at hinside
    exact hinside.of_step

/-- A path leads below its first step. -/
theorem below_pointerFrom_cons (start : String) (s : PathStep) (path : Path) :
    Below (step start (stepText s)) (pointerFrom start (s :: path)) :=
  stepFrom_eq start s ▸ below_pointerFrom (stepFrom start s) path

/-- A path with a step leads elsewhere. -/
theorem pointerFrom_cons_ne (start : String) (s : PathStep) (path : Path) :
    pointerFrom start (s :: path) ≠ start :=
  ne_of_below_step (below_pointerFrom_cons start s path)

end Wire

namespace Json

open Wire

/-! ## What stands at a place -/

/-- The values directly inside a value, each with the step to it. -/
def entries : Json → List (PathStep × Json)
  | .array values => values.mapIdx fun index value => (.item index, value)
  | .object members => members.map fun m => (.member m.1, m.2)
  | _ => []

/-- **A value stands at a place in a tree.** -/
inductive At : Json → Path → Json → Prop
  | here (v : Json) : At v [] v
  | inside {v w x : Json} {s : PathStep} {path : Path} (entry : (s, w) ∈ v.entries)
      (later : At w path x) : At v (s :: path) x

variable {v w x y : Json} {s : PathStep} {path rest : Path}

/-- The entries of a tree are its children. -/
theorem map_snd_entries (v : Json) : v.entries.map (·.2) = v.children := by
  cases v with
  | array values =>
    refine List.ext_getElem? fun i => ?_
    simp [entries, children, Function.comp_def]
  | object members => simp [entries, children]
  | null | bool _ | number _ | string _ => rfl

/-- An entry is a child. -/
theorem mem_children_of_entry (h : (s, w) ∈ v.entries) : w ∈ v.children :=
  map_snd_entries v ▸ List.mem_map_of_mem h

/-- A child is an entry. -/
theorem exists_entry_of_mem_children (h : w ∈ v.children) : ∃ s, (s, w) ∈ v.entries := by
  rw [← map_snd_entries] at h
  obtain ⟨⟨s, _⟩, hentry, rfl⟩ := List.mem_map.1 h
  exact ⟨s, hentry⟩

/-- At the empty path is the tree itself. -/
@[simp] theorem at_nil_iff : v.At [] x ↔ x = v := by
  constructor
  · intro h
    cases h
    rfl
  · rintro rfl
    exact .here x

/-- At a path is what an entry has at the rest of it. -/
theorem at_cons_iff : v.At (s :: path) x ↔ ∃ w, (s, w) ∈ v.entries ∧ w.At path x := by
  constructor
  · intro h
    cases h with
    | inside entry later => exact ⟨_, entry, later⟩
  · rintro ⟨w, entry, later⟩
    exact .inside entry later

/-- A path goes on from where another one leads. -/
theorem At.append (h : v.At path w) (later : w.At rest x) : v.At (path ++ rest) x := by
  induction h with
  | here => exact later
  | inside entry _ ih => exact .inside entry (ih later)

/-- One step further. -/
theorem At.snoc (h : v.At path w) (entry : (s, x) ∈ w.entries) : v.At (path ++ [s]) x :=
  h.append (.inside entry (.here x))

/-- Nothing stands inside a value without children. -/
theorem At.eq_of_entries_eq_nil (h : v.At path x) (hv : v.entries = []) : path = [] ∧ x = v := by
  cases h with
  | here => exact ⟨rfl, rfl⟩
  | inside entry _ => exact absurd (hv ▸ entry) List.not_mem_nil

/-- What holds of the members of every object in a tree, one level at a time. -/
theorem forall_objects {P : List (String × Json) → Prop}
    (own : ∀ members, v = .object members → P members)
    (children : ∀ w ∈ v.children, ∀ path members, w.At path (.object members) → P members)
    (path : Path) (members : List (String × Json)) (hat : v.At path (.object members)) :
    P members := by
  generalize hx : object members = x at hat
  cases hat with
  | here => exact own members hx.symm
  | @inside _ w _ _ rest entry later =>
    subst hx
    exact children w (mem_children_of_entry entry) rest members later

/-! ## One place for one pointer -/

/-- **No object in a tree has two members under one key.** -/
def DistinctKeys (v : Json) : Prop :=
  ∀ path members, v.At path (.object members) → (members.map (·.1)).Nodup

/-- An entry has no key twice if the tree has none. -/
theorem DistinctKeys.entry (h : v.DistinctKeys) (entry : (s, w) ∈ v.entries) : w.DistinctKeys :=
  fun path members hat => h (s :: path) members (.inside entry hat)

/-- A child has no key twice if the tree has none. -/
theorem DistinctKeys.children (h : v.DistinctKeys) (hw : w ∈ v.children) : w.DistinctKeys := by
  obtain ⟨s, entry⟩ := exists_entry_of_mem_children hw
  exact h.entry entry

/-- An ordered tree has no key twice. -/
theorem Ordered.distinctKeys (h : v.Ordered) : v.DistinctKeys := by
  induction v using Json.inductionOn with
  | h v ih =>
    refine forall_objects (fun members heq => ?_) fun w hw => ih w hw (h.children w hw)
    subst heq
    exact h.nodup_keys

/-- The steps into a container are different. -/
theorem DistinctKeys.nodup_steps (h : v.DistinctKeys) : (v.entries.map (·.1)).Nodup := by
  cases v with
  | array values =>
    refine List.pairwise_iff_getElem.2 fun i j hi hj hij => ?_
    simpa [entries] using Nat.ne_of_lt hij
  | object members =>
    have hkeys := h [] members (.here _)
    have hsteps : (object members).entries.map (·.1) = (members.map (·.1)).map PathStep.member := by
      simp [entries]
    rw [hsteps]
    exact hkeys.map fun _ _ heq => PathStep.member.inj heq
  | null | bool _ | number _ | string _ => exact List.nodup_nil

/-- Steps into one container that are written alike are the same. -/
theorem eq_of_stepText_eq {t : PathStep} (hs : (s, w) ∈ v.entries) (ht : (t, x) ∈ v.entries)
    (h : stepText s = stepText t) : s = t := by
  cases v with
  | array values =>
    simp only [entries, List.mem_mapIdx, Prod.mk.injEq] at hs ht
    obtain ⟨i, -, rfl, -⟩ := hs
    obtain ⟨j, -, rfl, -⟩ := ht
    rw [Nat.repr_injective h]
  | object members =>
    simp only [entries, List.mem_map, Prod.mk.injEq] at hs ht
    obtain ⟨m, -, rfl, -⟩ := hs
    obtain ⟨n, -, rfl, -⟩ := ht
    rw [token_injective h]
  | null | bool _ | number _ | string _ => cases hs

/-- Where no key comes twice a step leads to one child. -/
theorem DistinctKeys.eq_of_entry (h : v.DistinctKeys) (hw : (s, w) ∈ v.entries)
    (hx : (s, x) ∈ v.entries) : w = x := by
  have hpair := List.inj_on_of_nodup_map h.nodup_steps hw hx rfl
  exact congrArg Prod.snd hpair

/-- A place holds one value. -/
theorem At.unique (hv : v.DistinctKeys) (hx : v.At path x) (hy : v.At path y) : x = y := by
  induction hx with
  | here => exact (at_nil_iff.1 hy).symm
  | inside entry _ ih =>
    obtain ⟨w, entry', later⟩ := at_cons_iff.1 hy
    obtain rfl := hv.eq_of_entry entry entry'
    exact ih (hv.entry entry) later

/-- **Places with one pointer are one place.** -/
theorem eq_of_pointerFrom_eq (hv : v.DistinctKeys) {start : String} (hx : v.At path x)
    (hy : v.At rest y) (h : pointerFrom start path = pointerFrom start rest) : path = rest := by
  induction hx generalizing start rest with
  | here =>
    cases hy with
    | here => rfl
    | inside _ _ => exact absurd h.symm (pointerFrom_cons_ne start _ _)
  | @inside _ w _ s path entry _ ih =>
    cases hy with
    | here => exact absurd h (pointerFrom_cons_ne start s path)
    | @inside _ w' _ t rest entry' later' =>
      have hbelow := below_pointerFrom_cons start s path
      rw [h] at hbelow
      obtain rfl : s = t := eq_of_stepText_eq entry entry' <|
        step_eq_of_below (not_slash_mem_stepText s) (not_slash_mem_stepText t) hbelow
          (below_pointerFrom_cons start t rest)
      obtain rfl := hv.eq_of_entry entry entry'
      rw [ih (hv.entry entry) later' h]

end Json

end DebugBridge

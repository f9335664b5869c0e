import DebugBridge.Wire.Pointer
import Mathlib.Data.List.Basic
import Std.Data.String.ToNat

/-!
# Proofs/Wire/Pointer — different places have different pointers

A pointer is a text, yet references are meant to name places. A slash never stands inside a step, so
the text of a pointer can be cut at its slashes: of two places below one container, the pointers
agree only if their next steps do (`step_eq_of_below`), and the step of a key gives the key back
(`token_injective`).

The places inside a container are listed here once for arrays and once for objects (`itemPlaces`,
`memberPlaces`), for whatever stands at them, so that what is written and what is read are compared
place by place.
-/

namespace DebugBridge

namespace Wire

/-! ## Steps -/

/-- No character is written with a slash. -/
theorem not_slash_mem_tokenChar (c : Char) : '/' ∉ tokenChar c := by
  unfold tokenChar
  split
  · decide
  · decide
  · next h => simpa using Ne.symm h

/-- A written key has no slash. -/
theorem not_slash_mem_token (key : String) : '/' ∉ (token key).toList := by
  simp only [token, String.toList_ofList, List.mem_flatMap, not_exists, not_and]
  exact fun c _ => not_slash_mem_tokenChar c

/-- A written index has no slash. -/
theorem not_slash_mem_index (n : Nat) : '/' ∉ (toString n).toList := by
  rw [Nat.toString_eq_repr, Nat.toList_repr]
  intro h
  exact absurd (Nat.isDigit_of_mem_toDigits (by decide) (by decide) h) (by decide)

/-- What stands for the first character of a key can be told from what follows. -/
theorem tokenChar_append_inj {c d : Char} {l m : List Char}
    (h : tokenChar c ++ l = tokenChar d ++ m) : c = d ∧ l = m := by
  unfold tokenChar at h
  split at h <;> split at h <;> grind

/-- Characters that are written alike are alike. -/
theorem flatMap_tokenChar_injective : Function.Injective (List.flatMap tokenChar) := by
  have ne_nil (c : Char) (l : List Char) : tokenChar c ++ l ≠ [] := by
    unfold tokenChar
    split <;> simp
  intro l
  induction l with
  | nil =>
    intro m h
    cases m with
    | nil => rfl
    | cons d m => exact absurd h.symm (ne_nil d _)
  | cons c l ih =>
    intro m h
    cases m with
    | nil => exact absurd h (ne_nil c _)
    | cons d m =>
      obtain ⟨rfl, hrest⟩ := tokenChar_append_inj h
      rw [ih hrest]

/-- **Different keys are written differently.** -/
theorem token_injective : Function.Injective token := fun a b h => by
  have h' := congrArg String.toList h
  simp only [token, String.toList_ofList] at h'
  exact String.toList_injective (flatMap_tokenChar_injective h')

/-! ## Below a pointer -/

/-- A place is at a pointer or inside what stands there. -/
def Below (pointer place : String) : Prop :=
  ∃ rest : List Char, place.toList = pointer.toList ++ rest ∧
    (rest = [] ∨ ∃ steps, rest = '/' :: steps)

/-- One step further from a pointer. -/
def step (pointer next : String) : String :=
  pointer ++ "/" ++ next

/-- A pointer goes on with a slash and the next part. -/
theorem toList_step (pointer next : String) :
    (step pointer next).toList = pointer.toList ++ '/' :: next.toList := by
  simp [step]

/-- A place is below itself. -/
theorem below_refl (pointer : String) : Below pointer pointer :=
  ⟨[], by simp, Or.inl rfl⟩

/-- What is below the next place is below the place. -/
theorem Below.of_step {pointer next place : String} (h : Below (step pointer next) place) :
    Below pointer place := by
  obtain ⟨rest, hplace, -⟩ := h
  refine ⟨'/' :: (next.toList ++ rest), ?_, Or.inr ⟨_, rfl⟩⟩
  rw [hplace, toList_step]
  simp

/-- What is below the next place is not the place. -/
theorem ne_of_below_step {pointer next place : String} (h : Below (step pointer next) place) :
    place ≠ pointer := by
  obtain ⟨rest, hplace, -⟩ := h
  rintro rfl
  have := congrArg List.length hplace
  simp only [toList_step, List.length_append, List.length_cons] at this
  omega

/-- What stands before the first slash can be read off. -/
theorem takeWhile_step {next rest : List Char} (hnext : '/' ∉ next)
    (hrest : rest = [] ∨ ∃ steps, rest = '/' :: steps) :
    (next ++ rest).takeWhile (· != '/') = next := by
  rw [List.takeWhile_append_of_pos]
  · rcases hrest with rfl | ⟨steps, rfl⟩
    · simp
    · simp
  · intro c hc
    have : c ≠ '/' := fun h => hnext (h ▸ hc)
    simpa using this

/-- **Places below two steps from one pointer are different when the steps are.** -/
theorem step_eq_of_below {pointer a b place : String} (ha : '/' ∉ a.toList) (hb : '/' ∉ b.toList)
    (hpa : Below (step pointer a) place) (hpb : Below (step pointer b) place) : a = b := by
  obtain ⟨r, hr, hr'⟩ := hpa
  obtain ⟨s, hs, hs'⟩ := hpb
  have heq : a.toList ++ r = b.toList ++ s := by
    have := hr.symm.trans hs
    rw [toList_step, toList_step] at this
    simpa using this
  have htake := congrArg (List.takeWhile (· != '/')) heq
  rw [takeWhile_step ha hr', takeWhile_step hb hs'] at htake
  exact String.toList_injective htake

/-! ## The places inside a container -/

variable {α β : Type}

/-- The items of an array with their places, the first of which has number `index`. -/
def itemPlaces (pointer : String) : (index : Nat) → List α → List (String × α)
  | _, [] => []
  | index, x :: rest => (itemAt pointer index, x) :: itemPlaces pointer (index + 1) rest

/-- The members of an object with their places, by the keys they are written under. -/
def memberPlaces (pointer : String) (members : List (String × α)) : List (String × α) :=
  members.map fun m => (memberAt pointer m.1, m.2)

/-- The items at their places are the items. -/
@[simp] theorem map_snd_itemPlaces (pointer : String) (index : Nat) (l : List α) :
    (itemPlaces pointer index l).map (·.2) = l := by
  induction l generalizing index with
  | nil => rfl
  | cons x l ih => simp [itemPlaces, ih]

/-- The values at their places are those of the members. -/
@[simp] theorem map_snd_memberPlaces (pointer : String) (members : List (String × α)) :
    (memberPlaces pointer members).map (·.2) = members.map (·.2) := by
  simp [memberPlaces]

/-- The places of an array depend on its length alone. -/
theorem map_fst_itemPlaces (pointer : String) (index : Nat) (l : List α) :
    (itemPlaces pointer index l).map (·.1) =
      (List.range' index l.length).map (itemAt pointer) := by
  induction l generalizing index with
  | nil => rfl
  | cons x l ih => simp [itemPlaces, ih, List.range'_succ]

/-- The places of members are those of their keys. -/
theorem map_fst_memberPlaces (pointer : String) (members : List (String × α)) :
    (memberPlaces pointer members).map (·.1) = (members.map (·.1)).map (memberAt pointer) := by
  simp [memberPlaces]

/-- Places one step from a pointer, no two of which have a place below them in common. -/
structure Apart (pointer : String) (places : List String) : Prop where
  steps : ∀ p ∈ places, ∃ next, p = step pointer next
  disjoint : places.Pairwise fun p q => ∀ place, Below p place → ¬ Below q place

/-- Different next parts without a slash lead to places that are apart. -/
theorem apart_map {ι : Type} {next : ι → String} (hslash : ∀ i, '/' ∉ (next i).toList)
    (hinj : Function.Injective next) (pointer : String) {l : List ι} (hl : l.Nodup) :
    Apart pointer (l.map fun i => step pointer (next i)) := by
  refine ⟨by simp, List.pairwise_map.2 (hl.imp fun {i j} hij place hi hj => ?_)⟩
  exact hij (hinj (step_eq_of_below (hslash i) (hslash j) hi hj))

/-- The places of items are apart. -/
theorem apart_itemPlaces (pointer : String) (index : Nat) (l : List α) :
    Apart pointer ((itemPlaces pointer index l).map (·.1)) := by
  rw [map_fst_itemPlaces]
  exact apart_map not_slash_mem_index (fun _ _ h => Nat.repr_injective h) pointer List.nodup_range'

/-- The places of members are apart, if no key comes twice. -/
theorem apart_memberPlaces (pointer : String) {members : List (String × α)}
    (h : (members.map (·.1)).Nodup) : Apart pointer ((memberPlaces pointer members).map (·.1)) := by
  rw [map_fst_memberPlaces]
  exact apart_map not_slash_mem_token token_injective pointer h

end Wire

end DebugBridge

import Mathlib.Data.List.Perm.Basic

/-!
# Proofs/MapM — results for all items of a list, or none

`List.mapM` in `Option` gives the results for all items of a list or, if one of them has none,
nothing. Loops that collect results as they go come to the same (`foldlM_map`).
-/

namespace DebugBridge

variable {α β σ : Type} {f : α → Option β} {l : List α}

theorem mapM_eq_some_iff {l' : List β} :
    l.mapM f = some l' ↔ List.Forall₂ (fun x y => f x = some y) l l' := by
  induction l generalizing l' with
  | nil => cases l' <;> simp
  | cons x l ih =>
    rw [List.mapM_cons, List.forall₂_cons_left_iff]
    simp only [← ih]
    cases hx : f x with
    | none => simp
    | some y => cases l.mapM f <;> simp [eq_comm]

/-- A result comes from an item. -/
theorem exists_of_mem_mapM {l' : List β} (h : l.mapM f = some l') {y : β} (hy : y ∈ l') :
    ∃ x ∈ l, f x = some y := by
  rw [mapM_eq_some_iff] at h
  induction h with
  | nil => cases hy
  | cons head _ ih =>
    rcases List.mem_cons.1 hy with rfl | hy
    · exact ⟨_, List.mem_cons_self, head⟩
    · obtain ⟨x, hx, hfx⟩ := ih hy
      exact ⟨x, List.mem_cons_of_mem _ hx, hfx⟩

theorem mapM_eq_none_iff : l.mapM f = none ↔ ∃ x ∈ l, f x = none := by
  induction l with
  | nil => simp
  | cons x l ih =>
    rw [List.mapM_cons, List.exists_mem_cons_iff, ← ih]
    cases hx : f x with
    | none => simp
    | some y => cases l.mapM f <;> simp

theorem isSome_mapM_iff : (l.mapM f).isSome ↔ ∀ x ∈ l, (f x).isSome := by
  rw [Option.isSome_iff_ne_none, ne_eq, mapM_eq_none_iff]
  simp [Option.isSome_iff_ne_none]

/-- **Items in another order** have the same results in another order. -/
theorem mapM_perm {l' : List α} (h : l.Perm l') {ys : List β} (hys : l.mapM f = some ys) :
    ∃ ys', l'.mapM f = some ys' ∧ ys.Perm ys' := by
  rw [mapM_eq_some_iff] at hys
  obtain ⟨ys', hys', hperm⟩ := List.perm_comp_forall₂ h.symm hys
  exact ⟨ys', mapM_eq_some_iff.2 hys', hperm.symm⟩

/-- One item for another that has the same result. -/
theorem mapM_replace {x x' : α} (h : ∀ y, f x = some y → f x' = some y) {before after : List α}
    {ys : List β} (hys : (before ++ x :: after).mapM f = some ys) :
    (before ++ x' :: after).mapM f = some ys := by
  rw [List.mapM_append, List.mapM_cons] at hys ⊢
  cases hx : f x with
  | none =>
    cases hbefore : before.mapM f <;> simp [hbefore, hx] at hys
  | some y =>
    rw [h y hx]
    rwa [hx] at hys

/-- Relating what is found for the items of two lists, one by one. -/
theorem rel_mapM {γ δ : Type} {E : α → β → Prop} {S : γ → δ → Prop} {f : α → Option γ}
    {g : β → Option δ} (hfg : ∀ x y, E x y → Option.Rel S (f x) (g y)) {l : List α} {l' : List β}
    (h : List.Forall₂ E l l') : Option.Rel (List.Forall₂ S) (l.mapM f) (l'.mapM g) := by
  induction h with
  | nil => exact .some .nil
  | @cons x y l l' head _ ih =>
    have hhead := hfg x y head
    simp only [List.mapM_cons, Option.bind_eq_bind, Option.pure_def]
    generalize f x = first at hhead
    generalize g y = first' at hhead
    generalize l.mapM f = later at ih
    generalize l'.mapM g = later' at ih
    cases hhead with
    | none => exact .none
    | some hhead =>
      cases ih with
      | none => exact .none
      | some ih => exact .some (.cons hhead ih)

/-- Results that are only given where something holds. -/
theorem mapM_guard {p : α → Prop} [DecidablePred p] :
    (l.mapM fun x => if p x then f x else none) = if ∀ x ∈ l, p x then l.mapM f else none := by
  induction l with
  | nil => rfl
  | cons x l ih =>
    rw [List.mapM_cons, ih, List.mapM_cons]
    simp only [List.forall_mem_cons]
    by_cases hx : p x
    · by_cases hl : ∀ y ∈ l, p y
      · rw [if_pos hx, if_pos hl, if_pos ⟨hx, hl⟩]
      · rw [if_pos hx, if_neg hl, if_neg fun h : p x ∧ ∀ y ∈ l, p y => hl h.2]
        cases f x <;> rfl
    · rw [if_neg hx, if_neg fun h : p x ∧ ∀ y ∈ l, p y => hx h.1]
      rfl

/-- **Results that are put together one after the other.** -/
theorem foldlM_map {g : σ → β → σ} (l : List α) (start : σ) :
    (l.foldlM (fun s x => (f x).map (g s)) start) = (l.mapM f).map fun ys => ys.foldl g start := by
  induction l generalizing start with
  | nil => rfl
  | cons x l ih =>
    rw [List.foldlM_cons, List.mapM_cons]
    cases f x with
    | none => rfl
    | some y =>
      simp only [Option.map_some, Option.bind_eq_bind, Option.bind_some, ih]
      cases l.mapM f <;> rfl

/-! ## Folds -/

section

variable {step : σ → α → Option σ}

/-- **A fold does not depend on the order of its items**, if any two of them may change places. -/
theorem foldlM_perm {l l' : List α} (h : l.Perm l') (hcomm : ∀ x ∈ l, ∀ y ∈ l, ∀ s,
      (step s x).bind (fun s => step s y) = (step s y).bind fun s => step s x) (start : σ) :
    l.foldlM step start = l'.foldlM step start := by
  have hfold (l : List α) (s : Option σ) :
      (s.bind fun s => l.foldlM step s) = l.foldl (fun s x => s.bind fun s => step s x) s := by
    induction l generalizing s with
    | nil => cases s <;> rfl
    | cons x l ih =>
      rw [List.foldl_cons, ← ih]
      cases s <;> rfl
  have hsome (l : List α) :
      l.foldlM step start = l.foldl (fun s x => s.bind fun s => step s x) (some start) :=
    hfold l (some start)
  rw [hsome, hsome]
  refine h.foldl_eq' (fun x hx y hy s => ?_) (some start)
  cases s with
  | none => rfl
  | some s => exact hcomm x hx y hy s

/-- One item for another that does the same. -/
theorem foldlM_replace {x x' : α} (h : ∀ s final, step s x = some final → step s x' = some final)
    {before after : List α} {start final : σ}
    (hfold : (before ++ x :: after).foldlM step start = some final) :
    (before ++ x' :: after).foldlM step start = some final := by
  rw [List.foldlM_append] at hfold ⊢
  obtain ⟨mid, hmid, hlater⟩ := Option.bind_eq_some_iff.1 hfold
  obtain ⟨next, hnext, hafter⟩ := Option.bind_eq_some_iff.1 hlater
  rw [hmid]
  change (step mid x').bind (fun s => after.foldlM step s) = some final
  rw [h mid next hnext]
  exact hafter

end

end DebugBridge

import DebugBridge.KeyMap
import Mathlib.Data.List.Forall2
import Mathlib.Data.List.Induction
import Mathlib.Data.List.Nodup

/-!
# Proofs/KeyMap — a map is its entries, in any order

Entries in the order of their keys are determined by what `get?` gives, so maps that agree under
every key are equal (`ext_get?`), and a map built from entries with different keys does not depend
on the order in which they come (`ofList_eq`).
-/

namespace DebugBridge

namespace KeyMap

variable {α : Type}

theorem nodup_keys (m : KeyMap α) : m.keys.Nodup :=
  List.pairwise_map.2 (m.sorted.imp fun {a b} hlt (heq : a.1 = b.1) =>
    String.lt_irrefl b.1 (heq ▸ hlt))

theorem nodup_entries (m : KeyMap α) : m.entries.Nodup :=
  m.nodup_keys.of_map _

/-- Among entries with different keys, look-up is membership. -/
theorem lookup_eq_some_iff {l : List (String × α)} (h : (l.map (·.1)).Nodup) {key : String}
    {value : α} : l.lookup key = some value ↔ (key, value) ∈ l := by
  induction l with
  | nil => simp
  | cons head rest ih =>
    obtain ⟨k, v⟩ := head
    obtain ⟨hk, hrest⟩ := List.nodup_cons.1 h
    rw [lookup_cons_ite, List.mem_cons, Prod.mk.injEq]
    split
    · next heq =>
      subst heq
      refine ⟨fun h => Or.inl ⟨rfl, (Option.some.inj h).symm⟩, ?_⟩
      rintro (⟨-, rfl⟩ | hmem)
      · rfl
      · exact absurd (List.mem_map_of_mem (f := (·.1)) hmem) hk
    · next hne => simp [ih hrest, hne]

theorem get?_eq_some_iff {m : KeyMap α} {key : String} {value : α} :
    m.get? key = some value ↔ (key, value) ∈ m.entries :=
  lookup_eq_some_iff m.nodup_keys

/-- The values of a map with another entry. -/
theorem mem_values_insert {m : KeyMap α} {key : String} {value x : α}
    (h : x ∈ (m.insert key value).values) : x = value ∨ x ∈ m.values := by
  obtain ⟨e, he, rfl⟩ := List.mem_map.1 h
  have hget := get?_eq_some_iff.2 he
  rw [get?_insert] at hget
  split at hget
  · exact .inl (Option.some.inj hget).symm
  · exact .inr (List.mem_map_of_mem (get?_eq_some_iff.1 hget))

/-- **Maps that agree under every key are equal.** -/
theorem ext_get? {m n : KeyMap α} (h : ∀ key, m.get? key = n.get? key) : m = n := by
  have hperm : m.entries.Perm n.entries := by
    refine (List.perm_ext_iff_of_nodup m.nodup_entries n.nodup_entries).2 fun e => ?_
    rw [← get?_eq_some_iff (m := m), ← get?_eq_some_iff (m := n), h e.1]
  have hentries : m.entries = n.entries :=
    hperm.eq_of_pairwise (fun a b _ _ hab hba => absurd (String.lt_trans hab hba)
      (String.lt_irrefl _)) m.sorted n.sorted
  cases m
  cases n
  obtain rfl := hentries
  rfl

/-- A map with one more entry. -/
theorem entries_perm_cons {m n : KeyMap α} {key : String} {value : α} (hkey : n.get? key = none)
    (h : ∀ k, m.get? k = if k = key then some value else n.get? k) :
    m.entries.Perm ((key, value) :: n.entries) := by
  have hnew : (key, value) ∉ n.entries := fun hmem => by
    rw [get?_eq_some_iff.2 hmem] at hkey
    exact absurd hkey (by simp)
  refine (List.perm_ext_iff_of_nodup m.nodup_entries
    (List.nodup_cons.2 ⟨hnew, n.nodup_entries⟩)).2 fun e => ?_
  obtain ⟨k, v⟩ := e
  rw [← get?_eq_some_iff, h k, List.mem_cons, ← get?_eq_some_iff, Prod.mk.injEq]
  by_cases heq : k = key
  · subst heq
    simp [hkey, eq_comm]
  · simp [heq]

/-- **Of entries under one key the last one is in the map.** -/
theorem get?_ofList (l : List (String × α)) (key : String) :
    (ofList l).get? key = l.reverse.lookup key := by
  induction l using List.reverseRecOn with
  | nil => rfl
  | append_singleton l e ih =>
    obtain ⟨k, v⟩ := e
    have hsnoc : ofList (l ++ [(k, v)]) = (ofList l).insert k v := by
      simp [ofList, List.foldl_append]
    rw [hsnoc, get?_insert, ih, List.reverse_append, List.reverse_singleton, List.singleton_append,
      lookup_cons_ite]

theorem mem_of_mem_ofList {l : List (String × α)} {e : String × α} (h : e ∈ (ofList l).entries) :
    e ∈ l := by
  have hget := get?_eq_some_iff.2 h
  rw [get?_ofList] at hget
  obtain ⟨before, after, heq, -⟩ := List.lookup_eq_some_iff.1 hget
  exact List.mem_reverse.1 (heq ▸ List.mem_append_right before List.mem_cons_self)

theorem values_ofList_subset (l : List (String × α)) : (ofList l).values ⊆ l.map (·.2) :=
  List.map_subset _ fun _ => mem_of_mem_ofList

/-- Entries with different keys are all in their map. -/
theorem get?_ofList_eq_some_iff {l : List (String × α)} (h : (l.map (·.1)).Nodup) {key : String}
    {value : α} : (ofList l).get? key = some value ↔ (key, value) ∈ l := by
  have hreverse : (l.reverse.map (·.1)).Nodup := by
    rw [List.map_reverse]
    exact List.nodup_reverse.2 h
  rw [get?_ofList, lookup_eq_some_iff hreverse, List.mem_reverse]

theorem entries_ofList_perm {l : List (String × α)} (h : (l.map (·.1)).Nodup) :
    (ofList l).entries.Perm l := by
  refine (List.perm_ext_iff_of_nodup (nodup_entries _) (h.of_map _)).2 fun e => ?_
  rw [← get?_eq_some_iff, get?_ofList_eq_some_iff h]

/-- **The map of some entries does not depend on their order**, as long as the keys differ. -/
theorem ofList_eq {m : KeyMap α} {l : List (String × α)} (h : l.Perm m.entries) : ofList l = m := by
  have hl : (l.map (·.1)).Nodup := (h.map Prod.fst).nodup_iff.2 m.nodup_keys
  refine ext_get? fun key => Option.ext fun value => ?_
  rw [get?_ofList_eq_some_iff hl, get?_eq_some_iff, h.mem_iff]

/-! ## Maps with related values -/

section

variable {β : Type} {R : α → β → Prop}

/-- Entries with the same keys and related values, as keys and values apart. -/
theorem forall₂_entries_iff {l : List (String × α)} {l' : List (String × β)} :
    List.Forall₂ (fun e f => e.1 = f.1 ∧ R e.2 f.2) l l' ↔
      l.map (·.1) = l'.map (·.1) ∧ List.Forall₂ R (l.map (·.2)) (l'.map (·.2)) := by
  induction l generalizing l' with
  | nil => cases l' <;> simp
  | cons e l ih =>
    cases l' with
    | nil => simp
    | cons f l' =>
      simp only [List.forall₂_cons, ih, List.map_cons, List.cons.injEq]
      exact and_and_and_comm

theorem forall₂_zip (keys : List String) {values : List α} {others : List β}
    (h : List.Forall₂ R values others) :
    List.Forall₂ (fun e f => e.1 = f.1 ∧ R e.2 f.2) (keys.zip values) (keys.zip others) := by
  induction h generalizing keys with
  | nil => simp
  | cons head _ ih =>
    cases keys with
    | nil => simp
    | cons key keys => exact .cons ⟨rfl, head⟩ (ih keys)

/-- What is found under a key is related. -/
theorem rel_lookup {l : List (String × α)} {l' : List (String × β)}
    (h : List.Forall₂ (fun e f => e.1 = f.1 ∧ R e.2 f.2) l l') (key : String) :
    Option.Rel R (l.lookup key) (l'.lookup key) := by
  induction h with
  | nil => exact .none
  | @cons e f _ _ head _ ih =>
    obtain ⟨k, x⟩ := e
    obtain ⟨k', y⟩ := f
    obtain ⟨rfl, hvalue⟩ : k = k' ∧ R x y := head
    rw [lookup_cons_ite, lookup_cons_ite]
    split
    · exact .some hvalue
    · exact ih

theorem forall₂_insertEntry {l : List (String × α)} {l' : List (String × β)}
    (h : List.Forall₂ (fun e f => e.1 = f.1 ∧ R e.2 f.2) l l') (key : String) {v : α} {w : β}
    (hvw : R v w) : List.Forall₂ (fun e f => e.1 = f.1 ∧ R e.2 f.2) (insertEntry key v l)
      (insertEntry key w l') := by
  induction h with
  | nil => exact .cons ⟨rfl, hvw⟩ .nil
  | @cons e f l l' head rest ih =>
    obtain ⟨k, x⟩ := e
    obtain ⟨k', y⟩ := f
    obtain rfl : k = k' := head.1
    simp only [insertEntry]
    split
    · exact .cons ⟨rfl, hvw⟩ (.cons head rest)
    · split
      · exact .cons ⟨rfl, hvw⟩ rest
      · exact .cons head ih

/-- **Maps of entries with the same keys and related values** have the same keys and related
values. -/
theorem forall₂_ofList {l : List (String × α)} {l' : List (String × β)}
    (h : List.Forall₂ (fun e f => e.1 = f.1 ∧ R e.2 f.2) l l') :
    List.Forall₂ (fun e f => e.1 = f.1 ∧ R e.2 f.2) (ofList l).entries (ofList l').entries := by
  suffices hfold : ∀ (m : KeyMap α) (n : KeyMap β),
      List.Forall₂ (fun e f => e.1 = f.1 ∧ R e.2 f.2) m.entries n.entries →
        List.Forall₂ (fun e f => e.1 = f.1 ∧ R e.2 f.2)
          (l.foldl (fun m e => m.insert e.1 e.2) m).entries
          (l'.foldl (fun m e => m.insert e.1 e.2) n).entries from
    hfold empty empty .nil
  induction h with
  | nil => exact fun _ _ hmn => hmn
  | @cons e f l l' head _ ih =>
    intro m n hmn
    obtain ⟨hkey, hvalue⟩ := head
    refine ih _ _ ?_
    simp only [insert, hkey]
    exact forall₂_insertEntry hmn f.1 hvalue

end

end KeyMap

end DebugBridge

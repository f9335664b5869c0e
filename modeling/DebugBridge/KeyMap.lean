/-!
# KeyMap — maps under text keys, in key order

A `KeyMap` holds its entries in ascending order of the keys, one entry a key. Keys are compared
character by character, which is also the order of their UTF-8 bytes. The order is part of the type,
so two maps with the same entries are equal, and whatever is written from a map is written in one
way.

Each operation is described by what it does to `get?`.
-/

namespace DebugBridge

/-- Entries in ascending order of their keys, at most one a key. -/
structure KeyMap (α : Type) where
  entries : List (String × α)
  sorted : entries.Pairwise fun a b => a.1 < b.1
  deriving DecidableEq, Repr

namespace KeyMap

variable {α : Type}

/-! ## Entry lists -/

/-- Puts an entry at its place in an ordered list, instead of the entry under the same key. -/
def insertEntry (key : String) (value : α) : List (String × α) → List (String × α)
  | [] => [(key, value)]
  | (k, v) :: rest =>
    if key < k then (key, value) :: (k, v) :: rest
    else if key = k then (key, value) :: rest
    else (k, v) :: insertEntry key value rest

theorem lt_of_not_lt_of_ne {a b : String} (h : ¬ a < b) (hne : a ≠ b) : b < a :=
  Decidable.byContradiction fun h' =>
    hne (String.le_antisymm (String.not_lt.1 h') (String.not_lt.1 h))

theorem key_of_mem_insertEntry {key : String} {value : α} {l : List (String × α)}
    {e : String × α} (h : e ∈ insertEntry key value l) : e.1 = key ∨ e ∈ l := by
  induction l with
  | nil => simp_all [insertEntry]
  | cons head rest ih =>
    obtain ⟨k, v⟩ := head
    simp only [insertEntry] at h
    split at h
    · grind
    · split at h <;> grind

theorem sorted_insertEntry (key : String) (value : α) {l : List (String × α)}
    (h : l.Pairwise fun a b => a.1 < b.1) :
    (insertEntry key value l).Pairwise fun a b => a.1 < b.1 := by
  induction l with
  | nil => simp [insertEntry]
  | cons head rest ih =>
    obtain ⟨k, v⟩ := head
    obtain ⟨hk, hrest⟩ := List.pairwise_cons.1 h
    simp only [insertEntry]
    split
    · rename_i hlt
      refine List.pairwise_cons.2 ⟨fun e he => ?_, h⟩
      rcases List.mem_cons.1 he with rfl | he
      · exact hlt
      · exact String.lt_trans hlt (hk e he)
    · rename_i hlt
      split
      · rename_i heq
        exact List.pairwise_cons.2 ⟨fun e he => heq ▸ hk e he, hrest⟩
      · rename_i hne
        refine List.pairwise_cons.2 ⟨fun e he => ?_, ih hrest⟩
        rcases key_of_mem_insertEntry he with hkey | he
        · exact hkey ▸ lt_of_not_lt_of_ne hlt hne
        · exact hk e he

/-! ## Maps -/

/-- The map without entries. -/
def empty : KeyMap α := ⟨[], .nil⟩

instance : Inhabited (KeyMap α) := ⟨empty⟩

/-- Sets the value under `key`. -/
def insert (m : KeyMap α) (key : String) (value : α) : KeyMap α :=
  ⟨insertEntry key value m.entries, sorted_insertEntry key value m.sorted⟩

/-- Removes the entry under `key`. -/
def erase (m : KeyMap α) (key : String) : KeyMap α :=
  ⟨m.entries.filter (·.1 != key), m.sorted.filter _⟩

/-- The value under `key`. -/
def get? (m : KeyMap α) (key : String) : Option α :=
  m.entries.lookup key

/-- Whether there is an entry under `key`. -/
def contains (m : KeyMap α) (key : String) : Bool :=
  (m.get? key).isSome

/-- The keys, in ascending order. -/
def keys (m : KeyMap α) : List String :=
  m.entries.map (·.1)

/-- The values, in the order of their keys. -/
def values (m : KeyMap α) : List α :=
  m.entries.map (·.2)

/-- Each value replaced by its image. -/
def map {β : Type} (m : KeyMap α) (f : α → β) : KeyMap β :=
  ⟨m.entries.map fun e => (e.1, f e.2), List.pairwise_map.2 m.sorted⟩

/-- The number of entries. -/
def size (m : KeyMap α) : Nat :=
  m.entries.length

def isEmpty (m : KeyMap α) : Bool :=
  m.entries.isEmpty

/-- The map of a list of entries. Of entries under one key the last one stays. -/
def ofList (entries : List (String × α)) : KeyMap α :=
  entries.foldl (fun m e => m.insert e.1 e.2) empty

/-! ## The view through `get?` -/

theorem lookup_cons_ite (k' : String) (v : α) (l : List (String × α)) (k : String) :
    ((k', v) :: l).lookup k = if k = k' then some v else l.lookup k := by
  by_cases h : k = k'
  · simp [h]
  · simp [List.lookup_cons, beq_false_of_ne h, h]

theorem lookup_insertEntry (key : String) (value : α) (l : List (String × α)) (k : String) :
    (insertEntry key value l).lookup k = if k = key then some value else l.lookup k := by
  induction l with
  | nil => simp [insertEntry, lookup_cons_ite]
  | cons head rest ih =>
    obtain ⟨k', v⟩ := head
    simp only [insertEntry]
    split
    · simp only [lookup_cons_ite]
    · split
      · grind [lookup_cons_ite]
      · grind [lookup_cons_ite]

@[simp] theorem get?_insert (m : KeyMap α) (key : String) (value : α) (k : String) :
    (m.insert key value).get? k = if k = key then some value else m.get? k :=
  lookup_insertEntry key value m.entries k

@[simp] theorem get?_empty (k : String) : (empty : KeyMap α).get? k = none := rfl

theorem lookup_filter_ne (key : String) (l : List (String × α)) (k : String) :
    (l.filter (·.1 != key)).lookup k = if k = key then none else l.lookup k := by
  induction l with
  | nil => simp
  | cons head rest ih =>
    obtain ⟨k', v⟩ := head
    by_cases h : k' = key
    · rw [List.filter_cons_of_neg (by simp [h]), ih, lookup_cons_ite]
      grind
    · rw [List.filter_cons_of_pos (by simp [h]), lookup_cons_ite, ih, lookup_cons_ite]
      grind

@[simp] theorem get?_erase (m : KeyMap α) (key : String) (k : String) :
    (m.erase key).get? k = if k = key then none else m.get? k :=
  lookup_filter_ne key m.entries k

end KeyMap

/-- A set of texts, in ascending order. -/
abbrev KeySet := KeyMap Unit

end DebugBridge

import DebugBridge.Proofs.Json.Children
import DebugBridge.Proofs.KeyMap
import Mathlib.Data.List.Forall2

/-!
# Proofs/Json/Same — equality of trees

Two trees are equal when they have the same shape, the same keys and texts, and equal numbers; the
numbers need not be written in the same way, since zero has two signs. Members are compared in the
order in which they stand, which is the order of their keys in a tree that is read or written.

One level of it is a case distinction (`Alike.level`), with lists of equal trees below.
-/

namespace DebugBridge

namespace Json

mutual

/-- **Equality of trees**, with numbers compared by their values. -/
def same : Json → Json → Bool
  | .null, .null => true
  | .bool a, .bool b => a == b
  | .number a, .number b => a.same b
  | .string a, .string b => a == b
  | .array a, .array b => sameItems a b
  | .object a, .object b => sameMembers a b
  | _, _ => false
  termination_by structural v => v

/-- Equality of the items of two arrays. -/
def sameItems : List Json → List Json → Bool
  | [], [] => true
  | v :: a, w :: b => v.same w && sameItems a b
  | _, _ => false
  termination_by structural items => items

/-- Equality of the members of two objects. -/
def sameMembers : List (String × Json) → List (String × Json) → Bool
  | [], [] => true
  | (k, v) :: a, (l, w) :: b => k == l && v.same w && sameMembers a b
  | _, _ => false
  termination_by structural members => members

end

/-- Whether two trees are equal. -/
abbrev Alike (v w : Json) : Prop := v.same w = true

theorem sameItems_iff {a b : List Json} : sameItems a b = true ↔ List.Forall₂ Alike a b := by
  induction a generalizing b with
  | nil => cases b <;> simp [sameItems]
  | cons v a ih => cases b <;> simp [sameItems, ih]

theorem sameMembers_iff {a b : List (String × Json)} :
    sameMembers a b = true ↔ List.Forall₂ (fun m n => m.1 = n.1 ∧ Alike m.2 n.2) a b := by
  induction a generalizing b with
  | nil => cases b <;> simp [sameMembers]
  | cons m a ih => cases b <;> simp [sameMembers, ih]

/-- What equal trees are, one level down. -/
inductive AlikeLevel : Json → Json → Prop
  | null : AlikeLevel .null .null
  | bool (value : Bool) : AlikeLevel (.bool value) (.bool value)
  | number {m n : Number} (same : m.same n = true) : AlikeLevel (.number m) (.number n)
  | string (text : String) : AlikeLevel (.string text) (.string text)
  | array {a b : List Json} (items : List.Forall₂ Alike a b) : AlikeLevel (.array a) (.array b)
  | object {a b : List (String × Json)}
    (members : List.Forall₂ (fun m n => m.1 = n.1 ∧ Alike m.2 n.2) a b) :
    AlikeLevel (.object a) (.object b)

theorem alike_iff_level {v w : Json} : v.Alike w ↔ AlikeLevel v w := by
  constructor
  · intro h
    unfold Alike at h
    cases v <;> cases w <;> simp only [same, Bool.false_eq_true, beq_iff_eq] at h
    case null.null => exact .null
    case bool.bool => exact h ▸ .bool _
    case number.number => exact .number h
    case string.string => exact h ▸ .string _
    case array.array => exact .array (sameItems_iff.1 h)
    case object.object => exact .object (sameMembers_iff.1 h)
  · intro h
    cases h with
    | null => rfl
    | bool value => simp [Alike, same]
    | number same => simpa [Alike, Json.same] using same
    | string text => simp [Alike, same]
    | array items => simpa [Alike, same] using sameItems_iff.2 items
    | object members => simpa [Alike, same] using sameMembers_iff.2 members

theorem Alike.level {v w : Json} (h : v.Alike w) : AlikeLevel v w :=
  alike_iff_level.1 h

end Json

end DebugBridge

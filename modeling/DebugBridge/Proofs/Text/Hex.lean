import DebugBridge.Text.Hex
import Mathlib.Data.List.Forall2
import Mathlib.Data.Nat.Digits.Defs
import Mathlib.Tactic.SplitIfs

/-!
# Proofs/Text/Hex — what hexadecimal digits stand for

A value below sixteen has two digits, with a small letter and with a capital, which are the same
character for the first ten (`Spells`). Digits are read in either case (`value?_eq_some_iff`), and
to put a digit into small letters is to take the one that is written (`spells_iff_toLower`). The
digits that are written for a number stand for it (`exists_spells_ofNat`).
-/

namespace DebugBridge

/-- A character in a range is one of the characters from its start on. -/
theorem Text.eq_ofNat_add {c : Char} {start : Nat} (h : start ≤ c.toNat) :
    c = Char.ofNat (start + (c.toNat - start)) := by
  rw [Nat.add_sub_cancel' h, Char.ofNat_toNat]

/-- A character that has another small letter is one of the capitals. -/
theorem Text.toLower_cases (c : Char) :
    c.toLower = c ∨ ∃ k : Fin 26, c = Char.ofNat (0x41 + k) := by
  by_cases hrange : c.val ≥ 'A'.val ∧ c.val ≤ 'Z'.val
  · obtain ⟨hlow, hhigh⟩ : 0x41 ≤ c.toNat ∧ c.toNat ≤ 0x5A := hrange
    exact .inr ⟨⟨c.toNat - 0x41, by omega⟩, Text.eq_ofNat_add hlow⟩
  · exact .inl (dif_neg hrange)

/-- Small letters stay small. -/
theorem Text.toLower_toLower (c : Char) : c.toLower.toLower = c.toLower := by
  have hcapital : ∀ k : Fin 26, (Char.ofNat (0x41 + k)).toLower.toLower =
      (Char.ofNat (0x41 + k)).toLower := by decide
  rcases Text.toLower_cases c with hsame | ⟨k, rfl⟩
  · rw [hsame, hsame]
  · exact hcapital k

namespace Hex

/-- The digits of the sixteen values, with small letters. -/
def smallDigits : List Char :=
  ['0', '1', '2', '3', '4', '5', '6', '7', '8', '9', 'a', 'b', 'c', 'd', 'e', 'f']

/-- The digits of the sixteen values, with capitals. -/
def capitalDigits : List Char :=
  ['0', '1', '2', '3', '4', '5', '6', '7', '8', '9', 'A', 'B', 'C', 'D', 'E', 'F']

/-- **Whether a character is a digit of a value**, in either case. -/
def Spells (c : Char) (n : Nat) : Prop :=
  smallDigits[n]? = some c ∨ capitalDigits[n]? = some c

variable {c : Char} {n : Nat}

instance (c : Char) (n : Nat) : Decidable (Spells c n) :=
  inferInstanceAs (Decidable (_ ∨ _))

/-- There are sixteen values with two digits each. -/
theorem Spells.exists_fin (h : Spells c n) :
    ∃ m : Fin 16, n = m.val ∧ (c = smallDigits[m] ∨ c = capitalDigits[m]) := by
  rcases h with h | h
  · obtain ⟨hlt, rfl⟩ := List.getElem?_eq_some_iff.1 h
    exact ⟨⟨n, hlt⟩, rfl, .inl rfl⟩
  · obtain ⟨hlt, rfl⟩ := List.getElem?_eq_some_iff.1 h
    exact ⟨⟨n, hlt⟩, rfl, .inr rfl⟩

theorem Spells.lt (h : Spells c n) : n < 16 := by
  obtain ⟨m, rfl, -⟩ := h.exists_fin
  exact m.isLt

theorem spells_digit (h : n < 16) : Spells (digit n) n := by
  have : ∀ m : Fin 16, Spells (digit m) m := by decide
  exact this ⟨n, h⟩

/-- **A digit is read in either case, and nothing else is read.** -/
theorem value?_eq_some_iff : value? c = some n ↔ Spells c n := by
  constructor
  · have hdigit : ∀ k : Fin 10, Spells (Char.ofNat (0x30 + k)) k := by decide
    have hsmall : ∀ k : Fin 6, Spells (Char.ofNat (0x61 + k)) (0x61 + k - 0x57) := by decide
    have hcapital : ∀ k : Fin 6, Spells (Char.ofNat (0x41 + k)) (0x41 + k - 0x37) := by decide
    intro h
    rw [value?] at h
    split_ifs at h with hrange hrange hrange
    · obtain ⟨hlow, hhigh⟩ : 0x30 ≤ c.toNat ∧ c.toNat ≤ 0x39 := hrange
      obtain rfl := Option.some.inj h
      have := hdigit ⟨c.toNat - 0x30, by omega⟩
      rwa [← Text.eq_ofNat_add hlow] at this
    · obtain ⟨hlow, hhigh⟩ : 0x61 ≤ c.toNat ∧ c.toNat ≤ 0x66 := hrange
      obtain rfl := Option.some.inj h
      have := hsmall ⟨c.toNat - 0x61, by omega⟩
      rwa [← Text.eq_ofNat_add hlow, Nat.add_sub_cancel' hlow] at this
    · obtain ⟨hlow, hhigh⟩ : 0x41 ≤ c.toNat ∧ c.toNat ≤ 0x46 := hrange
      obtain rfl := Option.some.inj h
      have := hcapital ⟨c.toNat - 0x41, by omega⟩
      rwa [← Text.eq_ofNat_add hlow, Nat.add_sub_cancel' hlow] at this
  · have hsmall : ∀ m : Fin 16, value? smallDigits[m] = some m.val := by decide
    have hcapital : ∀ m : Fin 16, value? capitalDigits[m] = some m.val := by decide
    intro h
    obtain ⟨m, rfl, rfl | rfl⟩ := h.exists_fin
    · exact hsmall m
    · exact hcapital m

theorem Spells.unique {m : Nat} (h : Spells c n) (h' : Spells c m) : n = m :=
  Option.some.inj ((value?_eq_some_iff.2 h).symm.trans (value?_eq_some_iff.2 h'))

/-- **The digits of a value are the characters whose small letter is the one that is written.** -/
theorem spells_iff_toLower (hn : n < 16) : Spells c n ↔ c.toLower = digit n := by
  constructor
  · have hsmall : ∀ m : Fin 16, smallDigits[m].toLower = digit m := by decide
    have hcapital : ∀ m : Fin 16, capitalDigits[m].toLower = digit m := by decide
    intro h
    obtain ⟨m, rfl, rfl | rfl⟩ := h.exists_fin
    · exact hsmall m
    · exact hcapital m
  · have hcapital : ∀ k : Fin 26, ∀ m : Fin 16, (Char.ofNat (0x41 + k)).toLower = digit m →
        Spells (Char.ofNat (0x41 + k)) m := by decide
    intro h
    rcases Text.toLower_cases c with hsame | ⟨k, rfl⟩
    · rw [hsame] at h
      exact h ▸ spells_digit hn
    · exact hcapital k ⟨n, hn⟩ h

theorem spells_toLower : Spells c.toLower n ↔ Spells c n := by
  by_cases hn : n < 16
  · rw [spells_iff_toLower hn, spells_iff_toLower hn, Text.toLower_toLower]
  · exact ⟨fun h => absurd h.lt hn, fun h => absurd h.lt hn⟩

/-! ## Lists of digits -/

theorem forall₂_spells_iff {digits : List Char} {ns : List Nat} (h : ∀ n ∈ ns, n < 16) :
    List.Forall₂ Spells digits ns ↔ digits.map Char.toLower = ns.map digit := by
  induction ns generalizing digits with
  | nil => simp
  | cons n ns ih =>
    obtain ⟨hn, hns⟩ := List.forall_mem_cons.1 h
    rcases digits with _ | ⟨c, digits⟩
    · simp
    · rw [List.forall₂_cons, spells_iff_toLower hn, ih hns, List.map_cons, List.map_cons,
        List.cons.injEq]

theorem forall₂_spells_map_toLower {digits : List Char} {ns : List Nat} :
    List.Forall₂ Spells (digits.map Char.toLower) ns ↔ List.Forall₂ Spells digits ns := by
  rw [List.forall₂_map_left_iff]
  simp only [spells_toLower]

/-- The halves of some bytes, the high one of each first. -/
def halves (bytes : List UInt8) : List Nat :=
  bytes.flatMap fun byte => [byte.toNat / 16, byte.toNat % 16]

theorem lt_of_mem_halves {bytes : List UInt8} (h : n ∈ halves bytes) : n < 16 := by
  obtain ⟨byte, -, hn⟩ := List.mem_flatMap.1 h
  have hlt := byte.toNat_lt
  simp only [List.mem_cons, List.not_mem_nil, or_false] at hn
  omega

/-- Bytes are written half by half. -/
theorem ofBytes_eq (bytes : List UInt8) : ofBytes bytes = (halves bytes).map digit := by
  rw [ofBytes, halves, List.map_flatMap]
  rfl

/-- **The digits that are written for a number stand for it.** -/
theorem exists_spells_ofNat (n : Nat) :
    ∃ ns, List.Forall₂ Spells (ofNat n) ns ∧ Nat.ofDigits 16 ns.reverse = n := by
  have hdigit : ∀ m : Fin 16, Spells (Nat.digitChar m) m := by decide
  induction n using Nat.strong_induction_on with
  | h n ih =>
    by_cases hn : n < 16
    · refine ⟨[n], ?_, by simp⟩
      rw [ofNat, Nat.toDigits_of_lt_base hn]
      exact .cons (hdigit ⟨n, hn⟩) .nil
    · obtain ⟨ns, hns, hvalue⟩ := ih (n / 16) (by omega)
      refine ⟨ns ++ [n % 16], ?_, ?_⟩
      · rw [ofNat, Nat.toDigits_of_base_le (by decide) (by omega)]
        exact List.rel_append hns (.cons (hdigit ⟨n % 16, by omega⟩) .nil)
      · rw [List.reverse_append, List.reverse_singleton, List.singleton_append, Nat.ofDigits_cons,
          hvalue]
        omega

end Hex

end DebugBridge

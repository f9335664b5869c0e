import DebugBridge.Number.Basic
import DebugBridge.Text.Utf8

/-!
# Proofs/Number/Text — the characters of a number

The text of a number, integer or double, holds digits, signs, points and exponent marks only
(`Number.numeric_text`) and is never empty (`Number.text_ne_empty`). Each of its characters is one
byte, and none of them is a bracket or a quote.
-/

namespace DebugBridge

open Text (utf8)

/-- A character that the text of a number may hold. -/
def IsNumeric (c : Char) : Prop :=
  c.isDigit = true ∨ c = '-' ∨ c = '+' ∨ c = '.' ∨ c = 'e'

/-- Characters that all may stand in the text of a number. -/
def Numeric (chars : List Char) : Prop :=
  ∀ c ∈ chars, IsNumeric c

namespace Numeric

/-- No characters at all are numeric. -/
@[simp] theorem nil : Numeric [] :=
  List.forall_mem_nil _

/-- Characters are numeric if the first is, and the others are. -/
@[simp] theorem cons_iff {c : Char} {chars : List Char} :
    Numeric (c :: chars) ↔ IsNumeric c ∧ Numeric chars :=
  List.forall_mem_cons

/-- Numeric characters one after the other are numeric. -/
@[simp] theorem append_iff {a b : List Char} : Numeric (a ++ b) ↔ Numeric a ∧ Numeric b :=
  List.forall_mem_append

/-- The first of numeric characters are numeric. -/
theorem take {chars : List Char} (h : Numeric chars) (n : Nat) : Numeric (chars.take n) :=
  fun c hc => h c (List.mem_of_mem_take hc)

/-- What is left of numeric characters is numeric. -/
theorem drop {chars : List Char} (h : Numeric chars) (n : Nat) : Numeric (chars.drop n) :=
  fun c hc => h c (List.mem_of_mem_drop hc)

/-- Decimal digits are numeric. -/
theorem digits (n : Nat) : Numeric (Nat.toDigits 10 n) :=
  fun _ h => .inl (Nat.isDigit_of_mem_toDigits (by decide) (by decide) h)

/-- Zeros to fill up with are numeric. -/
theorem zeros (n : Nat) : Numeric (List.replicate n '0') :=
  fun _ h => .inl (by rw [List.eq_of_mem_replicate h]; rfl)

end Numeric

namespace Double

/-- **A decimal is written in numeric characters**, wherever its point is and with or without an
exponent. -/
theorem numeric_decimalText (digits : Nat) (k : Int) :
    Numeric (decimalText digits k).toList := by
  have hmarks : IsNumeric '0' ∧ IsNumeric '.' ∧ IsNumeric 'e' ∧ IsNumeric '-' ∧ IsNumeric '+' := by
    simp [IsNumeric]
  simp only [decimalText]
  repeat' split
  all_goals
    simp [hmarks, Numeric.digits, Numeric.zeros, (Numeric.digits _).take, (Numeric.digits _).drop,
      -List.drop_one]

/-- The text of a decimal is not empty. -/
theorem decimalText_ne_empty (digits : Nat) (k : Int) : decimalText digits k ≠ "" := by
  simp only [decimalText]
  repeat' split
  all_goals simp [← String.toList_inj]

/-- The text of a double without its sign. -/
theorem text_eq (x : Double) : ∃ magnitude : String, magnitude ≠ "" ∧ Numeric magnitude.toList ∧
    x.text = if x.negative then "-" ++ magnitude else magnitude := by
  unfold text
  generalize x.shortest = decimal
  obtain ⟨digits, k⟩ := decimal
  refine ⟨if x.isZero then "0.0" else decimalText digits k, ?_, ?_, rfl⟩
  · split
    · decide
    · exact decimalText_ne_empty digits k
  · split
    · simp [IsNumeric]
    · exact numeric_decimalText digits k

end Double

namespace Number

/-- **The text of a number is numeric.** -/
theorem numeric_text (n : Number) : Numeric n.text.toList := by
  rcases n with ⟨value, fits⟩ | x
  · rw [text, Int.toString_eq_repr, Int.repr_eq_if]
    split <;> simp [Numeric.digits, IsNumeric]
  · obtain ⟨magnitude, -, hnumeric, heq⟩ := x.text_eq
    rw [text, heq]
    split <;> simp [hnumeric, IsNumeric]

/-- The text of a number is not empty. -/
theorem text_ne_empty (n : Number) : n.text ≠ "" := by
  rcases n with ⟨value, fits⟩ | x
  · rw [text, Int.toString_eq_repr, Int.repr_eq_if]
    split <;> simp [← String.toList_inj, Nat.toDigits_ne_nil]
  · obtain ⟨magnitude, hne, -, heq⟩ := x.text_eq
    rw [text, heq]
    split <;> simp [hne]

/-! ## As bytes -/

/-- A number is written in one byte at least. -/
theorem utf8_text_ne_nil (n : Number) : utf8 n.text ≠ [] := fun h => by
  have hread := Text.ofUtf8?_utf8 n.text
  rw [h] at hread
  exact n.text_ne_empty (Option.some.inj hread.symm)

end Number

/-- A byte that is neither a bracket nor a quote. -/
def IsPlain (byte : UInt8) : Prop :=
  byte ≠ 0x22 ∧ byte ≠ 0x5B ∧ byte ≠ 0x5D ∧ byte ≠ 0x7B ∧ byte ≠ 0x7D

instance (byte : UInt8) : Decidable (IsPlain byte) :=
  inferInstanceAs (Decidable (_ ∧ _))

/-- A numeric character is one byte, and a plain one. -/
theorem IsNumeric.isPlain {c : Char} (h : IsNumeric c) :
    ∀ byte ∈ String.utf8EncodeChar c, IsPlain byte := by
  have hdigits : ∀ m : Fin 10, ∀ byte ∈ String.utf8EncodeChar (Char.ofNat (48 + m)),
      IsPlain byte := by decide +kernel
  rcases h with h | rfl | rfl | rfl | rfl
  · have hrange : 48 ≤ c.toNat ∧ c.toNat ≤ 57 := by
      simpa [Char.isDigit, UInt32.le_iff_toNat_le] using h
    have hc := hdigits ⟨c.toNat - 48, by omega⟩
    rwa [show 48 + (c.toNat - 48) = c.toNat by omega, Char.ofNat_toNat] at hc
  all_goals decide +kernel

/-- **No byte of a number is a bracket or a quote.** -/
theorem Number.isPlain_text (n : Number) : ∀ byte ∈ utf8 n.text, IsPlain byte := by
  rw [← String.ofList_toList (s := n.text), Text.utf8_ofList]
  intro byte hbyte
  obtain ⟨c, hc, hbyte⟩ := List.mem_flatMap.1 hbyte
  exact (n.numeric_text c hc).isPlain byte hbyte

end DebugBridge

import DebugBridge.Json.Printer
import DebugBridge.Json.Reader

/-!
# Proofs/Json/Numeral — integers are read as they were written

An integer is written as its decimal digits, after a sign if it is negative. Its digits are those of
its tenth and one more (`digits_of_le`), so every statement about them is by recursion on the tenth:
they add up to the number without leaving the 64 bits (`accumulate_digits`), and they begin with a
zero for zero alone (`exists_cons_digits`), which is when a reader takes a leading zero.

A numeral goes on as long as it can, so what stands after it counts. After a printed value stands
nothing, a comma or a closing bracket (`Delimited`), and none of them continues a numeral.
-/

namespace DebugBridge

open Text (utf8)

/-- The number is an integer. -/
def Number.IsInteger : Number → Prop
  | .integer .. => True
  | .real _ => False

instance : DecidablePred Number.IsInteger
  | .integer .. => .isTrue trivial
  | .real _ => .isFalse id

namespace Json

/-- What stands after a printed value: nothing, a comma or a closing bracket. -/
def Delimited (rest : List UInt8) : Prop :=
  ∀ byte ∈ rest.head?, byte = 0x2C ∨ byte = 0x5D ∨ byte = 0x7D

/-! ## The digits of a number -/

/-- The decimal digits of a number. -/
def digits (n : Nat) : List UInt8 :=
  utf8 (toString n)

/-- A number below ten has one digit. -/
theorem digits_of_lt {n : Nat} (h : n < 10) : digits n = [UInt8.ofNat (0x30 + n)] := by
  have : ∀ m : Fin 10, digits m = [UInt8.ofNat (0x30 + m)] := by decide
  exact this ⟨n, h⟩

/-- A number from ten on has the digits of its tenth, and its last digit. -/
theorem digits_of_le {n : Nat} (h : 10 ≤ n) :
    digits n = digits (n / 10) ++ [UInt8.ofNat (0x30 + n % 10)] := by
  have hlast := digits_of_lt (Nat.mod_lt n (by decide : 10 > 0))
  have hlt : n % 10 < 10 := Nat.mod_lt n (by decide)
  simp only [digits, Nat.toString_eq_ofList_toDigits, Nat.toDigits_of_lt_base hlt] at hlast ⊢
  rw [Nat.toDigits_of_base_le (by decide) h, String.ofList_append, Text.utf8_append, hlast]

/-- Induction over the digits of a number. -/
theorem digits_induction {P : Nat → Prop} (small : ∀ n < 10, P n)
    (more : ∀ n, 10 ≤ n → P (n / 10) → P n) (n : Nat) : P n := by
  induction n using Nat.strongRecOn with
  | ind n ih =>
    rcases Nat.lt_or_ge n 10 with h | h
    · exact small n h
    · exact more n h (ih _ (Nat.div_lt_self (by omega) (by decide)))

/-- The value of the byte of a digit. -/
theorem toNat_digit {d : Nat} (h : d < 10) : (UInt8.ofNat (0x30 + d)).toNat = 0x30 + d := by
  simp; omega

/-- The byte of a digit is a digit. -/
theorem isDigit_digit {d : Nat} (h : d < 10) : isDigit (UInt8.ofNat (0x30 + d)) = true := by
  have : ∀ m : Fin 10, isDigit (UInt8.ofNat (0x30 + m)) = true := by decide
  exact this ⟨d, h⟩

/-- The digits of a number are digits. -/
theorem isDigit_of_mem_digits {n : Nat} : ∀ byte ∈ digits n, isDigit byte = true := by
  induction n using digits_induction with
  | small n h => simpa [digits_of_lt h] using isDigit_digit h
  | more n h ih =>
    intro byte hbyte
    rw [digits_of_le h, List.mem_append, List.mem_singleton] at hbyte
    rcases hbyte with hbyte | rfl
    · exact ih byte hbyte
    · exact isDigit_digit (Nat.mod_lt n (by decide))

/-- A number begins with a digit, and with a zero only when it is zero. -/
theorem exists_cons_digits (n : Nat) :
    ∃ first more, digits n = first :: more ∧ (first = 0x30 → n = 0) := by
  induction n using digits_induction with
  | small n h =>
    refine ⟨_, [], digits_of_lt h, fun hzero => ?_⟩
    have := congrArg UInt8.toNat hzero
    rw [toNat_digit h] at this
    simpa using this
  | more n h ih =>
    obtain ⟨first, more, heq, hzero⟩ := ih
    exact ⟨first, _, by rw [digits_of_le h, heq, List.cons_append], fun h0 => by
      have := hzero h0
      omega⟩

/-- **The digits of a number of 64 bits add up to it**, with no digit dropped. -/
theorem accumulate_digits {n : Nat} (h : n < UInt64.size) (rest : List UInt8) :
    Numeral.accumulate 0 (digits n ++ rest) = Numeral.accumulate n rest := by
  induction n using digits_induction generalizing rest with
  | small n hn =>
    rw [digits_of_lt hn, List.singleton_append, Numeral.accumulate]
    simp only [toNat_digit hn]
    rw [if_pos (by omega)]
    congr 1
    omega
  | more n hn ih =>
    have hlt : n % 10 < 10 := Nat.mod_lt n (by decide)
    rw [digits_of_le hn, List.append_assoc, List.singleton_append, ih (by omega),
      Numeral.accumulate]
    simp only [toNat_digit hlt]
    rw [if_pos (by omega)]
    congr 1
    omega

/-! ## The numeral of an integer -/

/-- No digits stand where a number ends. -/
theorem Delimited.not_digit {rest : List UInt8} (h : Delimited rest) :
    rest.takeWhile isDigit = [] ∧ rest.dropWhile isDigit = rest := by
  cases rest with
  | nil => exact ⟨rfl, rfl⟩
  | cons byte rest => rcases h byte rfl with rfl | rfl | rfl <;> exact ⟨rfl, rfl⟩

/-- The digits of a number are read again. -/
theorem readDigits_digits (n : Nat) {rest : List UInt8} (h : Delimited rest) :
    Numeral.readDigits .keep (digits n ++ rest) = .ok (digits n, rest) := by
  obtain ⟨first, more, heq, -⟩ := exists_cons_digits n
  have hall := isDigit_of_mem_digits (n := n)
  rw [Numeral.readDigits, List.takeWhile_append_of_pos hall, List.dropWhile_append_of_pos hall,
    h.not_digit.1, h.not_digit.2, List.append_nil, heq]

/-- The digits of a number are read again as a whole number: they begin with no zero but for zero
itself. -/
theorem readWhole_digits (n : Nat) {rest : List UInt8} (h : Delimited rest) :
    Numeral.readWhole .keep (digits n ++ rest) = .ok (digits n, rest) := by
  obtain ⟨first, more, heq, hzero⟩ := exists_cons_digits n
  by_cases hfirst : first = 0x30
  · obtain rfl := hzero hfirst
    have hdigits : digits 0 = [0x30] := digits_of_lt (by decide)
    rw [hdigits]
    cases rest with
    | nil => rfl
    | cons byte rest => rcases h byte rfl with rfl | rfl | rfl <;> rfl
  · have hread := readDigits_digits n h
    rw [heq, List.cons_append] at hread ⊢
    rw [Numeral.readWhole.eq_def]
    split
    · next heq' => exact absurd (List.cons.inj heq').1 hfirst
    · exact hread

/-- Digits are read as a numeral without sign, fraction and exponent. -/
theorem read_positive (n : Nat) {rest : List UInt8} (h : Delimited rest) :
    Numeral.read .keep (digits n ++ rest) = .ok (⟨false, digits n, none, none⟩, rest) := by
  obtain ⟨first, more, heq, -⟩ := exists_cons_digits n
  have hfirst : first ≠ 0x2D := by
    rintro rfl
    exact absurd (isDigit_of_mem_digits (n := n) 0x2D (by simp [heq])) (by decide)
  have hwhole := readWhole_digits n h
  rw [heq, List.cons_append] at hwhole ⊢
  simp only [Numeral.read]
  split
  · next heq' => exact absurd (List.cons.inj heq').1 hfirst
  · rw [hwhole]
    cases rest with
    | nil => rfl
    | cons byte rest => rcases h byte rfl with rfl | rfl | rfl <;> rfl

/-- Digits after a minus are read as a negative numeral without fraction and exponent. -/
theorem read_negative (n : Nat) {rest : List UInt8} (h : Delimited rest) :
    Numeral.read .keep (0x2D :: (digits n ++ rest)) =
      .ok (⟨true, digits n, none, none⟩, rest) := by
  simp only [Numeral.read, readWhole_digits n h]
  cases rest with
  | nil => rfl
  | cons byte rest => rcases h byte rfl with rfl | rfl | rfl <;> rfl

/-! ## The value of the numeral -/

/-- An integer that fits is made a number. -/
theorem integer?_eq (value : Int) (fits) :
    Numeral.integer? value = some (.integer value fits) :=
  dif_pos fits

/-- No digit is left over of a number that fits into a word. -/
theorem accumulate_all {n : Nat} (h : n < UInt64.size) :
    Numeral.accumulate 0 (digits n) = (n, 0) := by
  simpa [Numeral.accumulate] using accumulate_digits h []

/-- The value of a numeral that has been written for a natural number. -/
theorem number?_positive {n : Nat} (fits) :
    Numeral.number? ⟨false, digits n, none, none⟩ = some (.integer n fits) := by
  have hsum := accumulate_all (show n < UInt64.size from Int.ofNat_lt.1 fits.2)
  simp only [Numeral.number?, hsum, Bool.not_false, if_true, integer?_eq (n : Int) fits]

/-- The value of a numeral that has been written for a negative number. -/
theorem number?_negative (n : Nat) (fits) :
    Numeral.number? ⟨true, digits (n + 1), none, none⟩ = some (.integer (.negSucc n) fits) := by
  have hsum := accumulate_all (show n + 1 < UInt64.size by unfold UInt64.size; omega)
  have hvalue : (-((n + 1 : Nat) : Int)) = .negSucc n := rfl
  simp only [Numeral.number?, hsum, hvalue, Bool.not_true, Nat.succ_ne_zero, if_false,
    Bool.false_eq_true, integer?_eq (.negSucc n) fits]
  rfl

/-- A natural number is written as its digits. -/
theorem utf8_text_ofNat (n : Nat) (fits) :
    utf8 (Number.integer (.ofNat n) fits).text = digits n := rfl

/-- A negative number is written as a minus and digits. -/
theorem utf8_text_negSucc (n : Nat) (fits) :
    utf8 (Number.integer (.negSucc n) fits).text = 0x2D :: digits (n + 1) :=
  Text.utf8_append "-" (toString (n + 1))

/-- **An integer is read as it was written.** -/
theorem readNumber_text {n : Number} (h : n.IsInteger) {rest : List UInt8}
    (hrest : Delimited rest) :
    readNumber .keep (utf8 n.text ++ rest) = .ok (.number n, rest) := by
  rcases n with ⟨n | n, fits⟩ | value
  · rw [utf8_text_ofNat, readNumber, read_positive n hrest]
    simp only [bind, Except.bind, number?_positive fits]
    rfl
  · rw [utf8_text_negSucc, List.cons_append, readNumber, read_negative (n + 1) hrest]
    simp only [bind, Except.bind, number?_negative n fits]
  · exact h.elim

/-- A printed integer begins with a sign or a digit. -/
theorem exists_cons_text {n : Number} (h : n.IsInteger) :
    ∃ first more, utf8 n.text = first :: more ∧ (first = 0x2D ∨ isDigit first = true) := by
  rcases n with ⟨n | n, fits⟩ | value
  · obtain ⟨first, more, heq, -⟩ := exists_cons_digits n
    exact ⟨first, more, heq, .inr (isDigit_of_mem_digits first (heq ▸ List.mem_cons_self))⟩
  · exact ⟨0x2D, _, utf8_text_negSucc n fits, .inl rfl⟩
  · exact h.elim

end Json

end DebugBridge

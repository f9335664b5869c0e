import DebugBridge.Json.Printer
import DebugBridge.Json.StringText
import Mathlib.Tactic.SplitIfs

/-!
# Proofs/Json/StringText — strings are read as they were written

An escaped byte is one piece for the reader, and the piece is the byte again
(`readPiece_escapeByte`). A printed string is therefore read byte by byte up to its closing quote,
whatever its bytes are, and the bytes of a text are read as the text.
-/

namespace DebugBridge

open Text (utf8)

namespace Json

/-! ## One byte -/

/-- The three forms of an escaped byte: a letter after a backslash, a code, or the byte itself. -/
inductive Escaped (byte : UInt8) : List UInt8 → Prop
  | letter {letter : UInt8} (h : letterEscape? letter = some byte) : Escaped byte [0x5C, letter]
  | code (h : byte < 0x20) : Escaped byte
      (0x5C :: 0x75 :: 0x30 :: 0x30 :: (Hex.ofByte byte).map fun c => UInt8.ofNat c.toNat)
  | plain (hquote : byte ≠ 0x22) (hslash : byte ≠ 0x5C) (h : ¬ byte < 0x20) : Escaped byte [byte]

theorem escaped_escapeByte (byte : UInt8) : Escaped byte (escapeByte byte) := by
  unfold escapeByte
  split_ifs with hquote hslash _ _ _ _ _ hcontrol
  iterate 7
    · subst byte
      exact .letter rfl
  · exact .code hcontrol
  · exact .plain hquote hslash hcontrol

theorem hexValue?_digit {n : Nat} (h : n < 16) :
    hexValue? (UInt8.ofNat (Hex.digit n).toNat) = some n := by
  have : ∀ m : Fin 16, hexValue? (UInt8.ofNat (Hex.digit m).toNat) = some m.val := by decide
  exact this ⟨n, h⟩

/-- A control stands for itself in UTF-8. -/
theorem utf8EncodeChar_control {byte : UInt8} (h : byte < 0x20) :
    String.utf8EncodeChar (Char.ofNat byte.toNat) = [byte] := by
  have : ∀ m : Fin 32, String.utf8EncodeChar (Char.ofNat m) = [UInt8.ofNat m] := by decide
  simpa using this ⟨byte.toNat, h⟩

/-- The two digits of a byte after two zeros are a code unit, which is the byte. -/
theorem readUnit_ofByte (byte : UInt8) (rest : List UInt8) :
    readUnit (0x30 :: 0x30 :: (((Hex.ofByte byte).map fun c => UInt8.ofNat c.toNat) ++ rest)) =
      .ok (byte.toNat, rest) := by
  have hlt := byte.toNat_lt
  have hzero : hexValue? 0x30 = some 0 := by decide
  have hunit : 16 * (byte.toNat / 16) + byte.toNat % 16 = byte.toNat := Nat.div_add_mod ..
  simp [readUnit, Hex.ofByte, hzero, hunit, hexValue?_digit (show byte.toNat / 16 < 16 by omega),
    hexValue?_digit (show byte.toNat % 16 < 16 by omega)]

/-- A control given by its code is read as itself. -/
theorem readEscape_code {byte : UInt8} (h : byte < 0x20) (rest : List UInt8) :
    readEscape .keep (0x75 :: 0x30 :: 0x30 ::
      (((Hex.ofByte byte).map fun c => UInt8.ofNat c.toNat) ++ rest)) = .ok ([byte], rest) := by
  have hlt : byte.toNat < 32 := h
  have htrailing : isTrailing byte.toNat = false := by simp [isTrailing]; omega
  have hleading : isLeading byte.toNat = false := by simp [isLeading]; omega
  simp [readEscape, readUnit_ofByte, htrailing, hleading, utf8EncodeChar_control h, bind,
    Except.bind]

theorem readEscape_letter {letter byte : UInt8} (h : letterEscape? letter = some byte)
    (rest : List UInt8) : readEscape .keep (letter :: rest) = .ok ([byte], rest) := by
  rw [readEscape.eq_def]
  split
  · next heq => cases heq
  · next heq =>
    rw [(List.cons.inj heq).1] at h
    exact absurd h (by simp [letterEscape?])
  · next heq =>
    obtain ⟨rfl, rfl⟩ := List.cons.inj heq
    rw [h]

/-- A byte that needs no escape is read as itself. -/
theorem readPiece_plain {byte : UInt8} (hquote : byte ≠ 0x22) (hslash : byte ≠ 0x5C)
    (h : ¬ byte < 0x20) (rest : List UInt8) :
    readPiece .keep (byte :: rest) = .ok (some [byte], rest) := by
  rw [readPiece.eq_def]
  split
  · next heq => cases heq
  · next heq => exact absurd (List.cons.inj heq).1 hquote
  · next heq => exact absurd (List.cons.inj heq).1 hslash
  · next heq =>
    obtain ⟨rfl, rfl⟩ := List.cons.inj heq
    rw [if_neg h]

/-- **An escaped byte is read as the byte.** -/
theorem readPiece_escapeByte (byte : UInt8) (rest : List UInt8) :
    readPiece .keep (escapeByte byte ++ rest) = .ok (some [byte], rest) := by
  have h := escaped_escapeByte byte
  generalize escapeByte byte = bytes at h
  cases h with
  | letter h => simp [readPiece, readEscape_letter h, Except.map]
  | code h => simp [readPiece, readEscape_code h, Except.map]
  | plain hquote hslash h => exact readPiece_plain hquote hslash h rest

theorem escapeByte_ne_nil (byte : UInt8) : escapeByte byte ≠ [] := by
  have h := escaped_escapeByte byte
  generalize escapeByte byte = bytes at h
  cases h <;> simp

/-! ## A whole string -/

theorem readPieces_escaped {bytes : List UInt8} {size : Nat} (h : bytes.length < size)
    (before rest : List UInt8) :
    readPieces .keep size before (bytes.flatMap escapeByte ++ 0x22 :: rest) =
      .ok (before.reverse ++ bytes, rest) := by
  induction bytes generalizing size before with
  | nil =>
    obtain ⟨size, rfl⟩ := Nat.exists_eq_succ_of_ne_zero (Nat.ne_of_gt h)
    simp [readPieces, readPiece, bind, Except.bind]
  | cons byte bytes ih =>
    obtain ⟨size, rfl⟩ := Nat.exists_eq_succ_of_ne_zero (Nat.ne_of_gt (Nat.zero_lt_of_lt h))
    have hsize : bytes.length < size := Nat.lt_of_succ_lt_succ h
    rw [List.flatMap_cons, List.append_assoc, readPieces, readPiece_escapeByte]
    simp [bind, Except.bind, ih hsize]

theorem length_le_length_escaped (bytes : List UInt8) :
    bytes.length ≤ (bytes.flatMap escapeByte).length := by
  induction bytes with
  | nil => simp
  | cons byte bytes ih =>
    have := List.length_pos_iff.2 (escapeByte_ne_nil byte)
    simp only [List.flatMap_cons, List.length_append, List.length_cons]
    omega

/-- **A printed string is read as its text**, by a reader that may take as many pieces as the
printed text has bytes. -/
theorem readString_printed {text : String} {size : Nat} {rest : List UInt8}
    (h : (printString text rest).length ≤ size) :
    readString .keep size ((utf8 text).flatMap escapeByte ++ 0x22 :: rest) = .ok (text, rest) := by
  have hsize : (utf8 text).length < size := by
    have := length_le_length_escaped (utf8 text)
    simp only [printString, List.length_cons, List.length_append] at h
    omega
  simp [readString, readPieces_escaped hsize, bind, Except.bind]

end Json

end DebugBridge

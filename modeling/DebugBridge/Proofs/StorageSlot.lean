import DebugBridge.Command
import DebugBridge.Proofs.Address
import DebugBridge.Proofs.Content.Setting

/-!
# Proofs/StorageSlot — the words that texts denote

A text of hexadecimal digits, with underscores among them, denotes a number (`StorageWord.Denotes`).
It is read from its end and byte by byte, and what was read so far must stay below `2 ^ 256`. Digits
only add to it, so the sum is refused on the way exactly if the whole number is too large
(`ofDigits_eq_ok_iff`), with any number of zeros in front. The words that can be read are thus the
numbers that texts denote (`reads_what_is_denoted`), among them every word that is written.
-/

namespace DebugBridge

/-! ## Digits as bytes -/

/-- A character is a byte of its own, or it begins with a byte that is no character. -/
theorem Text.utf8EncodeChar_cases (c : Char) :
    (c.toNat < 128 ∧ String.utf8EncodeChar c = [UInt8.ofNat c.toNat]) ∨
      128 ≤ c.toNat ∧ ∃ byte rest, String.utf8EncodeChar c = byte :: rest ∧ 128 ≤ byte.toNat := by
  have hbyte {n : Nat} (h : 128 ≤ n ∧ n < 256) : 128 ≤ (UInt8.ofNat n).toNat := by
    rw [UInt8.toNat_ofNat_of_lt' h.2]
    exact h.1
  unfold String.utf8EncodeChar
  dsimp only
  split_ifs with h1 h2 h3
  · exact .inl ⟨Nat.lt_succ_of_le h1, rfl⟩
  · exact .inr ⟨Nat.lt_of_not_le h1, _, _, rfl, hbyte (by omega)⟩
  · exact .inr ⟨Nat.lt_of_not_le h1, _, _, rfl, hbyte (by omega)⟩
  · exact .inr ⟨Nat.lt_of_not_le h1, _, _, rfl, hbyte (by omega)⟩

namespace Hex

/-- Whether a byte is a digit of a value. -/
def SpellsByte (byte : UInt8) (n : Nat) : Prop :=
  Spells (Char.ofNat byte.toNat) n

variable {c : Char} {n : Nat}

/-- Digits are among the first characters. -/
theorem Spells.toNat_lt (h : Spells c n) : c.toNat < 128 := by
  have hsmall : ∀ m : Fin 16, smallDigits[m].toNat < 128 := by decide
  have hcapital : ∀ m : Fin 16, capitalDigits[m].toNat < 128 := by decide
  obtain ⟨m, -, rfl | rfl⟩ := h.exists_fin
  · exact hsmall m
  · exact hcapital m

theorem not_spellsByte {byte : UInt8} (h : 128 ≤ byte.toNat) : ¬ SpellsByte byte n := by
  intro hspells
  have hvalid : byte.toNat.isValidChar := .inl (byte.toNat_lt.trans (by decide))
  have hlt := Spells.toNat_lt hspells
  rw [Char.ofNat, dif_pos hvalid] at hlt
  exact absurd h (Nat.not_le_of_lt hlt)

/-- **The bytes of a text without its underscores are digits as its characters are.** -/
theorem forall₂_spellsByte_iff {cs : List Char} {ns : List Nat} :
    List.Forall₂ SpellsByte ((cs.flatMap String.utf8EncodeChar).filter (· != 0x5F)) ns ↔
      List.Forall₂ Spells (cs.filter (· != '_')) ns := by
  induction cs generalizing ns with
  | nil => simp
  | cons c cs ih =>
    rw [List.flatMap_cons, List.filter_append]
    rcases Text.utf8EncodeChar_cases c with ⟨hc, hbytes⟩ | ⟨hc, byte, rest, hbytes, hbyte⟩
    · have hchar : Char.ofNat (UInt8.ofNat c.toNat).toNat = c := by
        rw [UInt8.toNat_ofNat_of_lt' (hc.trans (by decide)), Char.ofNat_toNat]
      have hscore : UInt8.ofNat c.toNat = 0x5F ↔ c = '_' := by
        refine ⟨fun h => ?_, fun h => h ▸ rfl⟩
        rw [← hchar, h]
        rfl
      by_cases h : c = '_'
      · rw [hbytes, List.filter_cons_of_neg (by simpa using hscore.2 h),
          List.filter_cons_of_neg (by simpa using h)]
        exact ih
      · have hspells : SpellsByte (UInt8.ofNat c.toNat) = Spells c := by
          unfold SpellsByte
          rw [hchar]
        rw [hbytes, List.filter_cons_of_pos (by simpa using mt hscore.1 h),
          List.filter_cons_of_pos (by simpa using h), List.filter_nil, List.singleton_append,
          List.forall₂_cons_left_iff, List.forall₂_cons_left_iff, hspells]
        simp only [ih]
    · have hc' : c ≠ '_' := by
        rintro rfl
        exact absurd hc (by decide)
      have hbyte' : byte ≠ 0x5F := by
        rintro rfl
        exact absurd hbyte (by decide)
      have hnone (n : Nat) : ¬ Spells c n := fun h => absurd h.toNat_lt (by omega)
      rw [hbytes, List.filter_cons_of_pos (by simpa using hbyte'),
        List.filter_cons_of_pos (by simpa using hc'), List.cons_append,
        List.forall₂_cons_left_iff, List.forall₂_cons_left_iff]
      simp only [not_spellsByte hbyte, hnone, false_and, exists_false]

end Hex

namespace StorageWord

/-! ## Sums of digits -/

/-- **Digits are summed up exactly if the sum is no larger than a word**, whatever zeros and
underscores are among them. -/
theorem ofDigits_eq_ok_iff {value place total : Nat} {bytes : List UInt8} (h : value < 2 ^ 256) :
    ofDigits value place bytes = .ok total ↔
      ∃ ns, List.Forall₂ Hex.SpellsByte (bytes.filter (· != 0x5F)) ns ∧
        total = value + 16 ^ place * Nat.ofDigits 16 ns ∧ total < 2 ^ 256 := by
  -- On the bytes that are left, for any sum so far and any weight of the next digit.
  induction bytes generalizing value place with
  | nil =>
    simp only [ofDigits, List.filter_nil, List.forall₂_nil_left_iff, exists_eq_left, Except.ok.injEq,
      Nat.ofDigits_nil, Nat.mul_zero, Nat.add_zero]
    constructor
    · rintro rfl
      exact ⟨rfl, h⟩
    · rintro ⟨rfl, -⟩
      rfl
  | cons byte bytes ih =>
    rw [ofDigits]
    by_cases hscore : byte = 0x5F
    · rw [if_pos hscore, ih h, List.filter_cons_of_neg (by simpa using hscore)]
    · rw [if_neg hscore, List.filter_cons_of_pos (by simpa using hscore)]
      rcases hdigit : Hex.value? (Char.ofNat byte.toNat) with _ | digit
      · refine ⟨nofun, ?_⟩
        rintro ⟨ns, hns, -⟩
        obtain ⟨n, rest, hn, -, -⟩ := List.forall₂_cons_left_iff.1 hns
        rw [Hex.value?_eq_some_iff.2 hn] at hdigit
        cases hdigit
      · have hspells : Hex.SpellsByte byte digit := Hex.value?_eq_some_iff.1 hdigit
        have hsum (ns : List Nat) : value + 16 ^ place * Nat.ofDigits 16 (digit :: ns) =
            value + digit * 16 ^ place + 16 ^ (place + 1) * Nat.ofDigits 16 ns := by
          rw [Nat.ofDigits_cons, Nat.pow_succ]
          ring
        dsimp only [Nat.pow_eq]
        split_ifs with hfits
        · rw [ih hfits]
          constructor
          · rintro ⟨ns, hns, htotal, hlt⟩
            exact ⟨digit :: ns, .cons hspells hns, htotal.trans (hsum ns).symm, hlt⟩
          · rintro ⟨ns, hns, htotal, hlt⟩
            obtain ⟨n, rest, hn, hrest, rfl⟩ := List.forall₂_cons_left_iff.1 hns
            obtain rfl := hspells.unique hn
            exact ⟨rest, hrest, htotal.trans (hsum rest), hlt⟩
        -- What is too large stays too large, whatever digits come.
        · refine ⟨nofun, ?_⟩
          rintro ⟨ns, hns, htotal, hlt⟩
          obtain ⟨n, rest, hn, -, rfl⟩ := List.forall₂_cons_left_iff.1 hns
          obtain rfl := hspells.unique hn
          rw [htotal, hsum] at hlt
          exact absurd (Nat.lt_of_le_of_lt (Nat.le_add_right _ _) hlt) hfits

/-! ## Texts of words -/

/-- **Whether a text denotes a number**: with at most one mark in front and blanks around, it has
nothing but the digits of the number, and underscores. No digits denote zero. -/
def Denotes (text : String) (value : Nat) : Prop :=
  ∃ inside digits, AddressKey.Wraps text inside ∧
    List.Forall₂ Hex.Spells (inside.filter (· != '_')) digits ∧
    value = Nat.ofDigits 16 digits.reverse

variable {text : String} {value : Nat} {slot word : StorageWord}

/-- Digits and underscores are taken from a text as they stand there. -/
theorem denotes_iff : Denotes text value ↔ ∃ digits,
    List.Forall₂ Hex.Spells ((AddressKey.unwrap text).filter (· != '_')) digits ∧
      value = Nat.ofDigits 16 digits.reverse := by
  constructor
  · rintro ⟨inside, digits, hwraps, hdigits, hvalue⟩
    have hplain : ∀ c ∈ inside, AddressKey.IsPlain c := by
      intro c hc
      by_cases hscore : c = '_'
      · rw [hscore]
        decide
      · exact AddressKey.isPlain_of_mem hdigits c (List.mem_filter.2 ⟨hc, by simpa using hscore⟩)
    rw [(AddressKey.unwrap_eq_iff hplain).2 hwraps]
    exact ⟨digits, hdigits, hvalue⟩
  · rintro ⟨digits, hdigits, hvalue⟩
    exact ⟨_, digits, AddressKey.wraps_unwrap text, hdigits, hvalue⟩

/-- **A text is read as the number that it denotes**, if this is a word. -/
theorem ofDigits_unwrap_eq_ok_iff :
    ofDigits 0 0 ((AddressKey.unwrap text).flatMap String.utf8EncodeChar).reverse = .ok value ↔
      Denotes text value ∧ value < 2 ^ 256 := by
  rw [ofDigits_eq_ok_iff (by decide), denotes_iff, List.filter_reverse]
  constructor
  · rintro ⟨ns, hns, hvalue, hlt⟩
    have hdigits := List.forall₂_reverse_iff.2 hns
    rw [List.reverse_reverse, Hex.forall₂_spellsByte_iff] at hdigits
    refine ⟨⟨ns.reverse, hdigits, ?_⟩, hlt⟩
    rw [List.reverse_reverse, hvalue, Nat.pow_zero, Nat.one_mul, Nat.zero_add]
  · rintro ⟨⟨digits, hdigits, hvalue⟩, hlt⟩
    refine ⟨digits.reverse, List.forall₂_reverse_iff.2 ?_, ?_, hlt⟩
    · exact Hex.forall₂_spellsByte_iff.2 hdigits
    · rw [hvalue, Nat.pow_zero, Nat.one_mul, Nat.zero_add]

theorem ofText_eq_ok_iff : ofText text = .ok slot ↔
    ∃ value, Denotes text value ∧ value < 2 ^ 256 ∧ slot = BitVec.ofNat 256 value := by
  have hbytes : Text.utf8 (String.ofList (AddressKey.withoutPrefix (Text.trim text).toList)) =
      (AddressKey.unwrap text).flatMap String.utf8EncodeChar := by
    rw [Text.utf8_ofList, Text.trim, String.toList_ofList]
    rfl
  rw [ofText, hbytes]
  constructor
  · intro h
    split at h
    · next value hread =>
      obtain ⟨hdenotes, hlt⟩ := ofDigits_unwrap_eq_ok_iff.1 hread
      exact ⟨value, hdenotes, hlt, (Except.ok.inj h).symm⟩
    · cases h
  · rintro ⟨value, hdenotes, hlt, rfl⟩
    rw [ofDigits_unwrap_eq_ok_iff.2 ⟨hdenotes, hlt⟩]

/-- Digits behind a mark denote what they stand for. -/
theorem denotes_of_spells {mark digits : List Char} {ns : List Nat} (hmark : mark ∈ AddressKey.marks)
    (h : List.Forall₂ Hex.Spells digits ns) :
    Denotes (String.ofList (mark ++ digits)) (Nat.ofDigits 16 ns.reverse) := by
  have hscore : digits.filter (· != '_') = digits := by
    have hnone (n : Nat) : ¬ Hex.Spells '_' n := by
      rw [← Hex.value?_eq_some_iff]
      exact nofun
    induction h with
    | nil => rfl
    | @cons c n digits ns head _ ih =>
      have hc : c ≠ '_' := fun heq => hnone n (heq ▸ head)
      rw [List.filter_cons_of_pos (by simpa using hc), ih]
  refine ⟨digits, ns, ⟨[], mark, [], ?_, .inr hmark, nofun, nofun⟩, ?_, rfl⟩
  · rw [String.toList_ofList, List.nil_append, List.append_nil]
  · rwa [hscore]

/-- **Zeros in front of digits denote nothing, and capitals what small letters do.** -/
theorem denotes_of_spelling {mark spelling : List Char} (hmark : mark ∈ AddressKey.marks)
    (zeros : Nat) (h : spelling.map Char.toLower = (Hex.ofNat value).map Char.toLower) :
    Denotes (String.ofList (mark ++ (List.replicate zeros '0' ++ spelling))) value := by
  obtain ⟨ns, hns, hvalue⟩ := Hex.exists_spells_ofNat value
  have hdigits : List.Forall₂ Hex.Spells spelling ns := by
    rwa [← Hex.forall₂_spells_map_toLower, h, Hex.forall₂_spells_map_toLower]
  have hzeros : List.Forall₂ Hex.Spells (List.replicate zeros '0') (List.replicate zeros 0) := by
    induction zeros with
    | zero => exact .nil
    | succ zeros ih => exact .cons (by decide) ih
  have hall := denotes_of_spells hmark (List.rel_append hzeros hdigits)
  rwa [List.reverse_append, List.reverse_replicate, Nat.ofDigits_append_replicate_zero,
    hvalue] at hall

/-- **Words are read exactly where texts denote them.** A text is read if it denotes a number below
`2 ^ 256`, as this number, and otherwise it is not read. The text that the debugger is told of a
word in storage is read as this word, with any number of zeros put in front and in any case. -/
theorem reads_what_is_denoted :
    (∀ text slot, ofJson (.string text) = .ok slot ↔
      ∃ value, Denotes text value ∧ value < 2 ^ 256 ∧ slot = BitVec.ofNat 256 value) ∧
    ∀ word, (Reply.storage (some word)).field? "value" = some (.string word.text) ∧
      ofJson (.string word.text) = .ok word ∧
      ∀ mark ∈ AddressKey.marks, ∀ zeros spelling,
        spelling.map Char.toLower = (Hex.ofNat word.toNat).map Char.toLower →
        ofJson (.string (String.ofList (mark ++ (List.replicate zeros '0' ++ spelling)))) =
          .ok word := by
  have hread (word : StorageWord) {mark spelling : List Char} (hmark : mark ∈ AddressKey.marks)
      (zeros : Nat)
      (h : spelling.map Char.toLower = (Hex.ofNat word.toNat).map Char.toLower) :
      ofJson (.string (String.ofList (mark ++ (List.replicate zeros '0' ++ spelling)))) =
        .ok word := by
    rw [ofJson, ofText_eq_ok_iff]
    refine ⟨word.toNat, denotes_of_spelling hmark zeros h, word.isLt, ?_⟩
    rw [BitVec.ofNat_toNat, BitVec.setWidth_eq]
  refine ⟨fun text slot => ?_, fun word => ⟨?_, ?_, ?_⟩⟩
  · rw [ofJson, ofText_eq_ok_iff]
  · rw [Reply.storage, Content.field?_set_string]
  · have htext : word.text =
        String.ofList (['0', 'x'] ++ (List.replicate 0 '0' ++ Hex.ofNat word.toNat)) := rfl
    rw [htext]
    exact hread word (by decide) 0 rfl
  · exact fun mark hmark zeros spelling h => hread word hmark zeros h

theorem reads_what_is_denoted_capitals :
    let word : StorageWord := 0xDEADBEEF
    let spelling := "DeadBEEF".toList
    (∃ value, Denotes "\t0X00_dEAD_Beef_\n" value ∧ value < 2 ^ 256 ∧
        word = BitVec.ofNat 256 value) ∧
      spelling.map Char.toLower = (Hex.ofNat word.toNat).map Char.toLower ∧
      ofJson (.string (String.ofList (['0', 'X'] ++ (List.replicate 70 '0' ++ spelling)))) =
        .ok word := by
  intro word spelling
  have hread : ofJson (.string "\t0X00_dEAD_Beef_\n") = .ok word := by decide +kernel
  have hspelling : spelling.map Char.toLower = (Hex.ofNat word.toNat).map Char.toLower := by
    decide +kernel
  obtain ⟨reads, written⟩ := reads_what_is_denoted
  exact ⟨(reads _ word).1 hread, hspelling, (written word).2.2 _ (by decide) 70 spelling hspelling⟩

end StorageWord

end DebugBridge

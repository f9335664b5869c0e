import DebugBridge.Proofs.Text.Wrapping

/-!
# Proofs/Address — one key for all spellings of an address

The key of an address is made in two ways: from its twenty bytes, and from a text in one of many
spellings (`Address.Spelled`). A text has the key of an address exactly if it is one of its
spellings (`normalize_eq_ofAddress_iff`), so keys are the same exactly where addresses are.

A key is a text, too, and may be normalized again. This makes no difference unless the mark that was
taken off had hidden something (`Layered`, `normalize_text_eq_iff`).
-/

namespace DebugBridge

/-- **Whether a text is a spelling of an address**: its forty digits, each of them in either case,
with at most one mark in front and blanks around. -/
def Address.Spelled (address : Address) (text : String) : Prop :=
  ∃ digits, AddressKey.Wraps text digits ∧
    List.Forall₂ Hex.Spells digits (Hex.halves address.bytes)

namespace AddressKey

variable {a b : Address} {text other : String}

theorem toList_normalize (text : String) :
    (normalize text).text.toList = (unwrap text).map Char.toLower :=
  String.toList_ofList

theorem ext_toList {k l : AddressKey} : k = l ↔ k.text.toList = l.text.toList := by
  rw [String.toList_inj]
  exact ⟨fun h => h ▸ rfl, fun h => by cases k; cases l; exact congrArg _ h⟩

/-! ## Spellings -/

/-- **The texts with the key of an address are its spellings.** -/
theorem normalize_eq_ofAddress_iff : normalize text = ofAddress a ↔ a.Spelled text := by
  have hkey : normalize text = ofAddress a ↔
      List.Forall₂ Hex.Spells (unwrap text) (Hex.halves a.bytes) := by
    rw [ext_toList, toList_normalize, ofAddress, String.toList_ofList, Hex.ofBytes_eq,
      Hex.forall₂_spells_iff fun n => Hex.lt_of_mem_halves]
  rw [hkey]
  constructor
  · exact fun h => ⟨unwrap text, wraps_unwrap text, h⟩
  · rintro ⟨digits, hwraps, hdigits⟩
    rwa [(unwrap_eq_iff (isPlain_of_mem hdigits)).2 hwraps]

/-- **The key of an address stands for it.** -/
theorem address?_ofAddress (a : Address) : (ofAddress a).address? = some a := by
  have hplain : ∀ c ∈ Hex.ofBytes a.bytes, IsPlain c := by
    rw [Hex.ofBytes_eq]
    exact List.forall_mem_map.2 fun n hn =>
      isPlain_of_spells (Hex.spells_digit (Hex.lt_of_mem_halves hn))
  unfold address?
  rw [ofAddress, String.toList_ofList]
  split
  · next heq => exact absurd rfl (hplain 'x' (by simp [heq])).2.1
  · dsimp only
    rw [Hex.toBytes?_ofBytes]
    exact dif_pos a.size

theorem ofAddress_inj : ofAddress a = ofAddress b ↔ a = b := by
  refine ⟨fun h => ?_, fun h => h ▸ rfl⟩
  have := congrArg address? h
  rwa [address?_ofAddress, address?_ofAddress, Option.some.injEq] at this

/-- **All spellings of an address agree.** Each of them has the key that is made from the bytes,
which gives the address back, and spellings have the same key only if they are of the same
address. -/
theorem spellings_agree (h : a.Spelled text) :
    normalize text = ofAddress a ∧ (normalize text).address? = some a ∧
      ∀ b other, b.Spelled other → (normalize other = normalize text ↔ b = a) := by
  have hkey := normalize_eq_ofAddress_iff.2 h
  refine ⟨hkey, by rw [hkey, address?_ofAddress], fun b other hother => ?_⟩
  rw [hkey, normalize_eq_ofAddress_iff.2 hother, ofAddress_inj]

/-- An address whose digits begin with zeros. -/
def lowAddress : Address :=
  ⟨[0x00, 0x0A, 0xB0, 0x1C, 0xDE, 0xF0, 0x12, 0x34, 0x56, 0x78, 0x9A, 0xBC, 0xDE, 0xF0, 0x0F, 0xED,
    0xCB, 0xA9, 0x87, 0x60], rfl⟩

def markedSpelling : String :=
  "\t\u0085 0X000aB01cDEF0123456789abcdef00FEdcba98760\n"

theorem spelled_markedSpelling : lowAddress.Spelled markedSpelling :=
  ⟨"000aB01cDEF0123456789abcdef00FEdcba98760".toList,
    ⟨['\t', '\u0085', ' '], ['0', 'X'], ['\n'], by decide +kernel, .inr (by decide),
      List.all_eq_true.1 (by decide), List.all_eq_true.1 (by decide)⟩, by decide +kernel⟩

def bareSpelling : String :=
  "000AB01CDEF0123456789ABCDEF00FEDCBA98760"

theorem spelled_bareSpelling : lowAddress.Spelled bareSpelling :=
  ⟨bareSpelling.toList, ⟨[], [], [], by decide +kernel, .inl rfl, nofun, nofun⟩, by decide +kernel⟩

theorem spellings_agree_lowAddress :
    lowAddress.Spelled markedSpelling ∧ normalize markedSpelling = ofAddress lowAddress ∧
      (normalize markedSpelling).address? = some lowAddress ∧
      normalize bareSpelling = normalize markedSpelling := by
  obtain ⟨hkey, haddress, hothers⟩ := spellings_agree spelled_markedSpelling
  exact ⟨spelled_markedSpelling, hkey, haddress,
    (hothers lowAddress bareSpelling spelled_bareSpelling).2 rfl⟩

/-! ## Keys as spellings -/

/-- **Whether a spelling hides something behind its mark** that is taken off where it is in front:
another mark, or a blank. -/
def Layered (text : String) : Prop :=
  ∃ mark ∈ marks, ∃ layer rest, Text.trimChars text.toList = mark ++ (layer ++ rest) ∧
    (layer ∈ marks ∨ ∃ c, layer = [c] ∧ Text.isBlank c = true)

/-- A text in small letters stays as it is exactly if nothing is taken off it. -/
theorem map_unwrap_eq_self_iff {cs : List Char} (h : cs.map Char.toLower = cs) :
    (withoutPrefix (Text.trimChars cs)).map Char.toLower = cs ↔
      Text.trimChars cs = cs ∧ ¬ IsMarked cs := by
  constructor
  · intro heq
    have hlength : (withoutPrefix (Text.trimChars cs)).length = cs.length := by
      simpa using congrArg List.length heq
    have htrim : Text.trimChars cs = cs := by
      refine (Text.trimChars_sublist cs).eq_of_length_le ?_
      rw [← hlength]
      exact (withoutPrefix_sublist _).length_le
    rw [htrim] at hlength
    exact ⟨htrim, withoutPrefix_eq_self_iff.1 ((withoutPrefix_sublist cs).eq_of_length hlength)⟩
  · rintro ⟨htrim, hmarked⟩
    rw [htrim, withoutPrefix_eq_self_iff.2 hmarked, h]

/-- The end of a text is trimmed before its mark is taken off. -/
theorem isBlank_getLast?_unwrap (text : String) :
    ∀ c ∈ (unwrap text).getLast?, Text.isBlank c = false := by
  intro c hc
  refine Text.isBlank_getLast?_trimChars text.toList c ?_
  rcases withoutPrefix_cases (Text.trimChars text.toList) with ⟨mark, -, heq⟩ | ⟨heq, -⟩
  · have hlast : (withoutPrefix (Text.trimChars text.toList)).getLast? = some c := hc
    rw [heq, List.getLast?_append, hlast]
    rfl
  · exact heq ▸ hc

/-- What a spelling hides is in front once its mark is taken off. -/
theorem layered_iff :
    Layered text ↔ ¬ (Text.trimChars (unwrap text) = unwrap text ∧ ¬ IsMarked (unwrap text)) := by
  constructor
  · rintro ⟨mark, hmark, layer, rest, htext, hlayer⟩ ⟨htrim, hmarked⟩
    have hinside : unwrap text = layer ++ rest := by
      rw [unwrap, htext, withoutPrefix_mark hmark]
    rcases hlayer with hlayer | ⟨c, rfl, hc⟩
    · exact hmarked ⟨layer, hlayer, rest, hinside.symm⟩
    · have hhead := (Text.trimChars_eq_self_iff.1 htrim).1 c (by rw [hinside]; rfl)
      rw [hc] at hhead
      cases hhead
  · intro h
    rcases withoutPrefix_cases (Text.trimChars text.toList) with ⟨mark, hmark, heq⟩ | ⟨heq, hmarked⟩
    · by_cases hinside : IsMarked (unwrap text)
      · obtain ⟨layer, hlayer, rest, hrest⟩ := hinside
        exact ⟨mark, hmark, layer, rest, hrest ▸ heq, .inl hlayer⟩
      -- The end was trimmed before, so a blank that is left stands in front.
      · have hblank : ∃ c ∈ (unwrap text).head?, Text.isBlank c = true := by
          by_contra hnone
          refine h ⟨Text.trimChars_eq_self_iff.2 ⟨fun c hc => ?_, isBlank_getLast?_unwrap text⟩,
            hinside⟩
          exact Bool.eq_false_iff.2 fun hc' => hnone ⟨c, hc, hc'⟩
        obtain ⟨c, hc, hc'⟩ := hblank
        obtain ⟨rest, hrest⟩ := List.head?_eq_some_iff.1 hc
        exact ⟨mark, hmark, [c], rest, by rw [List.singleton_append, ← hrest]; exact heq,
          .inr ⟨c, rfl, hc'⟩⟩
    · refine absurd ⟨?_, ?_⟩ h
      · rw [unwrap, heq]
        exact Text.trimChars_eq_self_iff.2
          ⟨Text.isBlank_head?_trimChars _, Text.isBlank_getLast?_trimChars _⟩
      · rw [unwrap, heq]
        exact hmarked

/-- **Normalizing a key changes nothing, unless its spelling hides something.** -/
theorem normalize_text_eq_iff :
    normalize (normalize text).text = normalize text ↔ ¬ Layered text := by
  have hsmall : ((unwrap text).map Char.toLower).map Char.toLower =
      (unwrap text).map Char.toLower := by
    rw [List.map_map]
    exact List.map_congr_left fun c _ => Text.toLower_toLower c
  rw [ext_toList, toList_normalize, unwrap, toList_normalize, map_unwrap_eq_self_iff hsmall,
    layered_iff, not_not, trimChars_map_toLower, isMarked_map_toLower]

end AddressKey

end DebugBridge

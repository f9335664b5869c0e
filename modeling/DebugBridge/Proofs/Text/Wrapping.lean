import DebugBridge.Address
import DebugBridge.Proofs.Text.Hex
import Mathlib.Data.List.DropRight

/-!
# Proofs/Text/Wrapping — what stands around the digits of a text

Texts with hexadecimal digits come with blanks around them and with a mark in front, `0x` or `0X`,
or without. The blanks are taken off and then one mark (`unwrap`). What is left has nothing but that
around it in the text (`wraps_unwrap`), and of digits nothing is taken off (`unwrap_eq_iff`).
-/

namespace DebugBridge

namespace Text

variable {before after cs : List Char}

/-- Trimming takes a run of blanks off either end. -/
theorem exists_trimChars (cs : List Char) :
    ∃ before after, cs = before ++ trimChars cs ++ after ∧ (∀ c ∈ before, isBlank c = true) ∧
      ∀ c ∈ after, isBlank c = true := by
  let late := cs.dropWhile isBlank
  have hlate : late = trimChars cs ++ late.rtakeWhile isBlank :=
    (List.rdropWhile_append_rtakeWhile (p := isBlank)).symm
  refine ⟨cs.takeWhile isBlank, late.rtakeWhile isBlank, ?_, fun c => List.mem_takeWhile_imp,
    fun c hc => List.mem_takeWhile_imp (List.mem_reverse.1 hc)⟩
  rw [List.append_assoc, ← hlate, List.takeWhile_append_dropWhile]

theorem isBlank_head?_trimChars (cs : List Char) :
    ∀ c ∈ (trimChars cs).head?, isBlank c = false := by
  intro c hc
  obtain ⟨late, hlate⟩ : ∃ late, trimChars cs ++ late = cs.dropWhile isBlank :=
    List.rdropWhile_prefix isBlank (cs.dropWhile isBlank)
  obtain ⟨rest, hrest⟩ := List.head?_eq_some_iff.1 hc
  have hhead := List.head?_dropWhile_not isBlank cs
  rw [← hlate, hrest] at hhead
  simpa using hhead

theorem isBlank_getLast?_trimChars (cs : List Char) :
    ∀ c ∈ (trimChars cs).getLast?, isBlank c = false := by
  intro c hc
  have hne : trimChars cs ≠ [] := by
    rintro hnil
    rw [hnil] at hc
    cases hc
  have hlast : ¬ isBlank ((trimChars cs).getLast hne) = true :=
    List.rdropWhile_last_not isBlank (cs.dropWhile isBlank) hne
  rw [List.getLast?_eq_some_getLast hne] at hc
  obtain rfl := Option.some.inj hc
  simpa using hlast

theorem trimChars_sublist (cs : List Char) : (trimChars cs).Sublist cs := by
  obtain ⟨before, after, hcs, -, -⟩ := exists_trimChars cs
  conv_rhs => rw [hcs]
  exact (List.sublist_append_right before _).trans (List.sublist_append_left _ after)

/-- **Nothing is trimmed exactly where neither end is blank.** -/
theorem trimChars_eq_self_iff :
    trimChars cs = cs ↔
      (∀ c ∈ cs.head?, isBlank c = false) ∧ ∀ c ∈ cs.getLast?, isBlank c = false := by
  refine ⟨fun h => h ▸ ⟨isBlank_head?_trimChars cs, isBlank_getLast?_trimChars cs⟩, ?_⟩
  rintro ⟨hhead, hlast⟩
  have hfront : cs.dropWhile isBlank = cs := by
    rw [List.dropWhile_eq_self_iff]
    intro hlt
    simpa using hhead _ (List.head?_eq_getElem? ▸ List.getElem?_eq_getElem hlt)
  have hback : cs.rdropWhile isBlank = cs := by
    rw [List.rdropWhile_eq_self_iff]
    intro hne
    simpa using hlast _ (List.getLast?_eq_some_getLast hne)
  calc
    trimChars cs = (cs.dropWhile isBlank).rdropWhile isBlank := rfl
    _ = cs := by rw [hfront, hback]

/-- Blanks around some characters make no difference. -/
theorem trimChars_append (hbefore : ∀ c ∈ before, isBlank c = true)
    (hafter : ∀ c ∈ after, isBlank c = true) (hcs : trimChars cs = cs) :
    trimChars (before ++ cs ++ after) = cs := by
  rw [trimChars, List.append_assoc, List.dropWhile_append_of_pos hbefore]
  rcases cs with _ | ⟨c, rest⟩
  · rw [List.nil_append, List.dropWhile_eq_nil_iff.2 hafter]
    rfl
  · have hc : isBlank c = false := (trimChars_eq_self_iff.1 hcs).1 c rfl
    have hfront : (c :: rest).dropWhile isBlank = c :: rest :=
      List.dropWhile_cons_of_neg (by simp [hc])
    rw [List.cons_append, List.dropWhile_cons_of_neg (by simp [hc]), ← List.cons_append,
      List.reverse_append, List.dropWhile_append_of_pos (by simpa using hafter)]
    rw [trimChars, hfront] at hcs
    exact hcs

end Text

namespace AddressKey

variable {text : String} {inside cs : List Char}

/-- What marks hexadecimal digits. -/
def marks : List (List Char) :=
  [['0', 'x'], ['0', 'X']]

/-- Whether characters begin with a mark. -/
def IsMarked (cs : List Char) : Prop :=
  ∃ mark ∈ marks, mark <+: cs

/-- A mark in front is taken off, and nothing else is. -/
theorem withoutPrefix_cases (cs : List Char) :
    (∃ mark ∈ marks, cs = mark ++ withoutPrefix cs) ∨ withoutPrefix cs = cs ∧ ¬ IsMarked cs := by
  unfold withoutPrefix
  split
  · exact .inl ⟨['0', 'x'], by decide, rfl⟩
  · exact .inl ⟨['0', 'X'], by decide, rfl⟩
  · next hx hX =>
    refine .inr ⟨rfl, ?_⟩
    rintro ⟨mark, hmark, rest, rfl⟩
    obtain rfl | rfl : mark = ['0', 'x'] ∨ mark = ['0', 'X'] := by simpa [marks] using hmark
    · exact hx rest rfl
    · exact hX rest rfl

theorem withoutPrefix_mark {mark : List Char} (h : mark ∈ marks) (rest : List Char) :
    withoutPrefix (mark ++ rest) = rest := by
  obtain rfl | rfl : mark = ['0', 'x'] ∨ mark = ['0', 'X'] := by simpa [marks] using h
  · rfl
  · rfl

theorem withoutPrefix_sublist (cs : List Char) : (withoutPrefix cs).Sublist cs := by
  rcases withoutPrefix_cases cs with ⟨mark, -, heq⟩ | ⟨heq, -⟩
  · conv_rhs => rw [heq]
    exact List.sublist_append_right mark _
  · rw [heq]

theorem withoutPrefix_eq_self_iff : withoutPrefix cs = cs ↔ ¬ IsMarked cs := by
  constructor
  · rintro hself ⟨mark, hmark, rest, rfl⟩
    have hlength : ∀ mark ∈ marks, mark.length = 2 := by decide
    have := congrArg List.length hself
    rw [withoutPrefix_mark hmark, List.length_append, hlength mark hmark] at this
    omega
  · intro h
    rcases withoutPrefix_cases cs with ⟨mark, hmark, heq⟩ | ⟨heq, -⟩
    · exact absurd ⟨mark, hmark, _, heq.symm⟩ h
    · exact heq

/-- The characters of a text without the blanks at its ends and then without a mark. -/
def unwrap (text : String) : List Char :=
  withoutPrefix (Text.trimChars text.toList)

/-- **Whether a text is some characters with at most one mark in front and blanks around.** -/
def Wraps (text : String) (inside : List Char) : Prop :=
  ∃ before mark after, text.toList = before ++ (mark ++ inside) ++ after ∧
    (mark = [] ∨ mark ∈ marks) ∧ (∀ c ∈ before, Text.isBlank c = true) ∧
    ∀ c ∈ after, Text.isBlank c = true

/-- Nothing else is taken off. -/
theorem wraps_unwrap (text : String) : Wraps text (unwrap text) := by
  obtain ⟨before, after, htext, hbefore, hafter⟩ := Text.exists_trimChars text.toList
  rcases withoutPrefix_cases (Text.trimChars text.toList) with ⟨mark, hmark, heq⟩ | ⟨heq, -⟩
  · exact ⟨before, mark, after, by rw [unwrap, ← heq]; exact htext, .inr hmark, hbefore, hafter⟩
  · exact ⟨before, [], after, by rw [unwrap, heq]; exact htext, .inl rfl, hbefore, hafter⟩

/-- Whether a character is no blank and not the letter of a mark. -/
def IsPlain (c : Char) : Prop :=
  Text.isBlank c = false ∧ c ≠ 'x' ∧ c ≠ 'X'

instance (c : Char) : Decidable (IsPlain c) :=
  inferInstanceAs (Decidable (_ ∧ _))

theorem isPlain_of_spells {c : Char} {n : Nat} (h : Hex.Spells c n) : IsPlain c := by
  have hsmall : ∀ m : Fin 16, IsPlain Hex.smallDigits[m] := by decide
  have hcapital : ∀ m : Fin 16, IsPlain Hex.capitalDigits[m] := by decide
  obtain ⟨m, -, rfl | rfl⟩ := h.exists_fin
  · exact hsmall m
  · exact hcapital m

theorem isPlain_of_mem {digits : List Char} {ns : List Nat} (h : List.Forall₂ Hex.Spells digits ns) :
    ∀ c ∈ digits, IsPlain c := by
  induction h with
  | nil => exact fun c hc => absurd hc List.not_mem_nil
  | cons head _ ih => exact List.forall_mem_cons.2 ⟨isPlain_of_spells head, ih⟩

/-- **Of plain characters nothing is taken off**, whatever is around them. -/
theorem unwrap_eq_iff (h : ∀ c ∈ inside, IsPlain c) : unwrap text = inside ↔ Wraps text inside := by
  refine ⟨fun heq => heq ▸ wraps_unwrap text, ?_⟩
  rintro ⟨before, mark, after, htext, hmark, hbefore, hafter⟩
  have hplain : ∀ c ∈ mark ++ inside, Text.isBlank c = false := by
    have hmarks : ∀ mark ∈ marks, (mark.all fun c => !Text.isBlank c) = true := by decide
    rw [List.forall_mem_append]
    refine ⟨?_, fun c hc => (h c hc).1⟩
    rcases hmark with rfl | hmark
    · exact fun c hc => absurd hc List.not_mem_nil
    · simpa using hmarks mark hmark
  have htrim : Text.trimChars (mark ++ inside) = mark ++ inside := Text.trimChars_eq_self_iff.2
    ⟨fun c hc => hplain c (List.mem_of_mem_head? hc),
      fun c hc => hplain c (List.mem_of_mem_getLast? hc)⟩
  rw [unwrap, htext, Text.trimChars_append hbefore hafter htrim]
  rcases hmark with rfl | hmark
  · rw [List.nil_append]
    rcases withoutPrefix_cases inside with ⟨mark, hmark, heq⟩ | ⟨heq, -⟩
    · have hx : ∀ mark ∈ marks, 'x' ∈ mark ∨ 'X' ∈ mark := by decide
      have hinside (c : Char) (hc : c ∈ mark) : c ∈ inside :=
        heq ▸ List.mem_append_left _ hc
      rcases hx mark hmark with hc | hc
      · exact absurd rfl (h _ (hinside _ hc)).2.1
      · exact absurd rfl (h _ (hinside _ hc)).2.2
    · exact heq
  · exact withoutPrefix_mark hmark inside

/-! ## Small letters -/

theorem isBlank_toLower (c : Char) : Text.isBlank c.toLower = Text.isBlank c := by
  have hcapital : ∀ k : Fin 26, Text.isBlank (Char.ofNat (0x41 + k)).toLower =
      Text.isBlank (Char.ofNat (0x41 + k)) := by decide
  rcases Text.toLower_cases c with hsame | ⟨k, rfl⟩
  · rw [hsame]
  · exact hcapital k

theorem trimChars_map_toLower : Text.trimChars (cs.map Char.toLower) = cs.map Char.toLower ↔
    Text.trimChars cs = cs := by
  simp [Text.trimChars_eq_self_iff, isBlank_toLower]

/-- Small letters make no mark of what is none. -/
theorem isMarked_map_toLower : IsMarked (cs.map Char.toLower) ↔ IsMarked cs := by
  have hletters (c : Char) : ('0' = c.toLower ↔ '0' = c) ∧
      ('x' = c.toLower ∨ 'X' = c.toLower ↔ 'x' = c ∨ 'X' = c) := by
    have hcapital : ∀ k : Fin 26,
        ('0' = (Char.ofNat (0x41 + k)).toLower ↔ '0' = Char.ofNat (0x41 + k)) ∧
        ('x' = (Char.ofNat (0x41 + k)).toLower ∨ 'X' = (Char.ofNat (0x41 + k)).toLower ↔
          'x' = Char.ofNat (0x41 + k) ∨ 'X' = Char.ofNat (0x41 + k)) := by decide
    rcases Text.toLower_cases c with hsame | ⟨k, rfl⟩
    · rw [hsame]
      exact ⟨.rfl, .rfl⟩
    · exact hcapital k
  rcases cs with _ | ⟨c, _ | ⟨d, rest⟩⟩
  · rfl
  · simp [IsMarked, marks]
  · simp only [IsMarked, marks, List.mem_cons, List.not_mem_nil, or_false, exists_eq_or_imp,
      exists_eq_left, List.map_cons, List.cons_prefix_cons, List.nil_prefix, and_true, ← and_or_left, hletters]

end AddressKey

end DebugBridge

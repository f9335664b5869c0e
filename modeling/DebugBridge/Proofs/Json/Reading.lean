import DebugBridge.Proofs.Json.Children
import DebugBridge.Proofs.Json.Numeral
import DebugBridge.Proofs.Json.StringText
import DebugBridge.Proofs.KeyMap
import DebugBridge.Proofs.Number.Text

/-!
# Proofs/Json/Reading — trees are read as they were printed

A printed tree whose numbers are integers is read as itself (`readValue_print`), wherever in a text
it stands, by a reader with room for its containers. The reader goes by recursion on the room and by
a loop over the slots of one container, and so does the proof: each loop is shown for any reader of
slots that reads the values in question back.

The loops are bounded by the size of the text. That they never run out is counted on the side of the
printer, where every value takes one byte at least.
-/

namespace DebugBridge

open Text (utf8)

namespace Json

/-- **Every number in the tree is an integer.** -/
inductive Integral : Json → Prop
  | intro {v : Json} (here : ∀ n, v = .number n → n.IsInteger)
      (inside : ∀ w ∈ v.children, w.Integral) : v.Integral

theorem Integral.here {v : Json} : v.Integral → ∀ n, v = .number n → n.IsInteger
  | .intro here _ => here

theorem Integral.inside {v : Json} : v.Integral → ∀ w ∈ v.children, w.Integral
  | .intro _ inside => inside

theorem integral_null : null.Integral :=
  .intro (fun _ h => nomatch h) (List.forall_mem_nil _)

theorem integral_string (text : String) : (string text).Integral :=
  .intro (fun _ h => nomatch h) (List.forall_mem_nil _)

/-! ## The length of a text -/

theorem length_printKey (key : String) (rest : List UInt8) :
    rest.length < (printKey key rest).length := by
  simp only [printKey, printString, List.length_cons, List.length_append]
  omega

theorem length_lt_append {word : List UInt8} (h : word ≠ []) (rest : List UInt8) :
    rest.length < (word ++ rest).length := by
  have := List.length_pos_iff.2 h
  rw [List.length_append]
  omega

mutual

/-- A value takes one byte at least. -/
theorem length_lt_print (v : Json) (rest : List UInt8) : rest.length < (v.print rest).length := by
  cases v with
  | null => exact length_lt_append (by decide) rest
  | bool value => cases value <;> exact length_lt_append (by decide) rest
  | number n => exact length_lt_append n.utf8_text_ne_nil rest
  | string text => simp only [print, printString, List.length_cons, List.length_append]; omega
  | array items =>
    cases items with
    | nil => simp only [print, List.length_cons]; omega
    | cons item items =>
      have hitem := length_lt_print item (printItems items (0x5D :: rest))
      have hitems := length_printItems items (0x5D :: rest)
      simp only [print, List.length_cons] at hitems ⊢
      omega
  | object members =>
    cases members with
    | nil => simp only [print, List.length_cons]; omega
    | cons member members =>
      obtain ⟨key, value⟩ := member
      have hvalue := length_lt_print value (printMembers members (0x7D :: rest))
      have hkey := length_printKey key (value.print (printMembers members (0x7D :: rest)))
      have hmembers := length_printMembers members (0x7D :: rest)
      simp only [print, List.length_cons] at hmembers ⊢
      omega

/-- Every further item takes one byte at least. -/
theorem length_printItems (items : List Json) (rest : List UInt8) :
    rest.length + items.length ≤ (printItems items rest).length := by
  cases items with
  | nil => simp [printItems]
  | cons item items =>
    have hitem := length_lt_print item (printItems items rest)
    have hitems := length_printItems items rest
    simp only [printItems, List.length_cons]
    omega

/-- Every further member takes one byte at least. -/
theorem length_printMembers (members : List (String × Json)) (rest : List UInt8) :
    rest.length + members.length ≤ (printMembers members rest).length := by
  cases members with
  | nil => simp [printMembers]
  | cons member members =>
    obtain ⟨key, value⟩ := member
    have hvalue := length_lt_print value (printMembers members rest)
    have hkey := length_printKey key (value.print (printMembers members rest))
    have hmembers := length_printMembers members rest
    simp only [printMembers, List.length_cons]
    omega

end

/-! ## The first byte of a value -/

theorem skipSpaces_cons {first : UInt8} (h : isSpace first = false) (more : List UInt8) :
    skipSpaces (first :: more) = first :: more :=
  List.dropWhile_cons_of_neg (by simp [h])

/-- What a numeral begins with is no other token. -/
theorem range_numeral {first : UInt8} (h : first = 0x2D ∨ isDigit first = true) :
    0x2D ≤ first.toNat ∧ first.toNat ≤ 0x39 := by
  rcases h with rfl | h
  · decide
  · simp only [isDigit, Bool.and_eq_true, decide_eq_true_eq, UInt8.le_iff_toNat_le] at h
    exact ⟨Nat.le_trans (by decide) h.1, h.2⟩

theorem isSpace_numeral {first : UInt8} (h : first = 0x2D ∨ isDigit first = true) :
    isSpace first = false := by
  have hrange := range_numeral h
  by_contra hspace
  simp only [isSpace, Bool.not_eq_false, Bool.or_eq_true, beq_iff_eq] at hspace
  rcases hspace with ((rfl | rfl) | rfl) | rfl <;> simp at hrange

theorem readValueWith_numeral {mode : Mode} {size : Nat} {array object : Reader Json}
    {first : UInt8} (h : first = 0x2D ∨ isDigit first = true) (more : List UInt8) :
    readValueWith mode size array object (first :: more) = readNumber mode (first :: more) := by
  have hrange := range_numeral h
  rw [readValueWith.eq_def, skipSpaces_cons (isSpace_numeral h)]
  split
  case h_8 =>
    next heq =>
    obtain ⟨rfl, rfl⟩ := List.cons.inj heq
    rw [if_pos (by simpa using h)]
  all_goals next heq => cases heq <;> simp at hrange

/-- A printed value begins with no space and with no closing bracket. -/
theorem exists_cons_print {v : Json} (h : v.Integral) (rest : List UInt8) :
    ∃ first more, v.print rest = first :: more ∧ isSpace first = false ∧ first ≠ 0x5D := by
  cases v with
  | null => exact ⟨_, _, rfl, rfl, by decide⟩
  | bool value => cases value <;> exact ⟨_, _, rfl, rfl, by decide⟩
  | number n =>
    obtain ⟨first, more, heq, hfirst⟩ := exists_cons_text (h.here n rfl)
    refine ⟨first, more ++ rest, by rw [print, heq, List.cons_append], isSpace_numeral hfirst, ?_⟩
    rintro rfl
    exact absurd (range_numeral hfirst).2 (by decide)
  | string text => exact ⟨_, _, rfl, rfl, by decide⟩
  | array items => cases items <;> exact ⟨_, _, rfl, rfl, by decide⟩
  | object members => cases members <;> exact ⟨_, _, rfl, rfl, by decide⟩

/-! ## The two loops -/

/-- The reader takes the printed tree for `value`, wherever it stands before a comma or a closing
bracket, in a text of `size` bytes. -/
def ReadsAs {α : Type} (size : Nat) (read : Reader α) (v : Json) (value : α) : Prop :=
  ∀ rest : List UInt8, Delimited rest → (v.print rest).length ≤ size →
    read (v.print rest) = .ok (value, rest)

/-- The reader takes the printed tree for the tree. -/
abbrev ReadsBack (size : Nat) (item : Reader Json) (v : Json) : Prop :=
  ReadsAs size item v v

theorem delimited_printItems (items : List Json) (rest : List UInt8) :
    Delimited (printItems items (0x5D :: rest)) := by
  cases items <;> simp [printItems, Delimited]

theorem delimited_printMembers (members : List (String × Json)) (rest : List UInt8) :
    Delimited (printMembers members (0x7D :: rest)) := by
  cases members <;> simp [printMembers, Delimited]

/-- **Printed items are read as the items.** -/
theorem readItems_print {size rounds : Nat} {item : Reader Json} {v : Json} {items : List Json}
    (hitem : ∀ w ∈ v :: items, ReadsBack size item w) (hrounds : items.length < rounds)
    (before : List Json) {rest : List UInt8}
    (hsize : (v.print (printItems items (0x5D :: rest))).length ≤ size) :
    readItems item rounds before (v.print (printItems items (0x5D :: rest))) =
      .ok (before.reverse ++ v :: items, rest) := by
  induction items generalizing v rounds before with
  | nil =>
    obtain ⟨rounds, rfl⟩ := Nat.exists_eq_succ_of_ne_zero (Nat.ne_of_gt hrounds)
    rw [readItems, hitem v List.mem_cons_self _ (delimited_printItems [] rest) hsize]
    simp [printItems, skipSpaces, isSpace, bind, Except.bind]
  | cons w items ih =>
    obtain ⟨rounds, rfl⟩ := Nat.exists_eq_succ_of_ne_zero (Nat.ne_of_gt (Nat.zero_lt_of_lt hrounds))
    have hlength := length_lt_print v (printItems (w :: items) (0x5D :: rest))
    rw [printItems, List.length_cons] at hlength
    have hmore := ih (fun u hu => hitem u (List.mem_cons_of_mem _ hu))
      (Nat.lt_of_succ_lt_succ hrounds) (v :: before) (by rw [printItems] at hsize; omega)
    rw [readItems, hitem v List.mem_cons_self _ (delimited_printItems (w :: items) rest) hsize]
    simp only [printItems, bind, Except.bind, skipSpaces_cons (show isSpace 0x2C = false from rfl),
      hmore]
    simp

/-- A printed key is read as the key, and the colon stands after it. -/
theorem readKey_print {key : String} {size : Nat} {rest : List UInt8}
    (hsize : (printKey key rest).length ≤ size) :
    readKey .keep size (printKey key rest) = .ok (key, 0x3A :: rest) :=
  readString_printed hsize

/-- **Printed members are read as the members**, on top of those that were read before. -/
theorem readMembers_print {size rounds : Nat} {item : Reader Json} {key : String} {v : Json}
    {members : List (String × Json)}
    (hitem : ∀ w ∈ v :: members.map (·.2), ReadsBack size item w)
    (hrounds : members.length < rounds) (before : KeyMap Json) {rest : List UInt8}
    (hsize : (printKey key (v.print (printMembers members (0x7D :: rest)))).length ≤ size) :
    readMembers (readKey .keep size) item rounds before
        (printKey key (v.print (printMembers members (0x7D :: rest)))) =
      .ok (((key, v) :: members).foldl (fun m e => m.insert e.1 e.2) before, rest) := by
  induction members generalizing key v rounds before with
  | nil =>
    obtain ⟨rounds, rfl⟩ := Nat.exists_eq_succ_of_ne_zero (Nat.ne_of_gt hrounds)
    have hkey := length_printKey key (v.print (printMembers [] (0x7D :: rest)))
    rw [readMembers, readKey_print hsize]
    simp only [bind, Except.bind, readColon, skipSpaces_cons (show isSpace 0x3A = false from rfl)]
    rw [hitem v List.mem_cons_self _ (delimited_printMembers [] rest) (by omega)]
    simp [printMembers, skipSpaces, isSpace]
  | cons m members ih =>
    obtain ⟨key', w⟩ := m
    obtain ⟨rounds, rfl⟩ := Nat.exists_eq_succ_of_ne_zero (Nat.ne_of_gt (Nat.zero_lt_of_lt hrounds))
    have hkey := length_printKey key (v.print (printMembers ((key', w) :: members) (0x7D :: rest)))
    have hlength := length_lt_print v (printMembers ((key', w) :: members) (0x7D :: rest))
    have hafter : (printKey key' (w.print (printMembers members (0x7D :: rest)))).length ≤ size := by
      rw [printMembers, List.length_cons] at hlength
      rw [printMembers] at hkey hsize
      omega
    have hmore := ih (fun u hu => hitem u (List.mem_cons_of_mem _ hu))
      (Nat.lt_of_succ_lt_succ hrounds) (before.insert key v) hafter
    rw [readMembers, readKey_print hsize]
    simp only [bind, Except.bind, readColon, skipSpaces_cons (show isSpace 0x3A = false from rfl)]
    rw [hitem v List.mem_cons_self _ (delimited_printMembers ((key', w) :: members) rest)
      (by omega)]
    simp only [printMembers, skipSpaces_cons (show isSpace 0x2C = false from rfl), hmore]
    simp

/-! ## A whole value -/

/-- Scalars are read back by any reader of values, whatever it does at a bracket. -/
theorem readValueWith_scalar {v : Json} (h : v.Integral) (scalar : v.nesting = 0) {size : Nat}
    (array object : Reader Json) : ReadsBack size (readValueWith .keep size array object) v := by
  intro rest hrest hsize
  cases v with
  | null => rfl
  | bool value => cases value <;> rfl
  | number n =>
    obtain ⟨first, more, heq, hfirst⟩ := exists_cons_text (h.here n rfl)
    have hread := readNumber_text (h.here n rfl) hrest
    rw [heq, List.cons_append] at hread
    rw [print, heq, List.cons_append, readValueWith_numeral hfirst, hread]
  | string text =>
    have hread := readString_printed hsize
    simp only [print, printString, List.cons_append, readValueWith,
      skipSpaces_cons (show isSpace 0x22 = false from rfl), hread]
    rfl
  | array items => simp [nesting] at scalar
  | object members => simp [nesting] at scalar

theorem readValueWith_array {size : Nat} {item : Reader Json} {items : List Json}
    (integral : ∀ w ∈ items, w.Integral) (h : ∀ w ∈ items, ReadsBack size item w)
    (object : Reader Json) :
    ReadsBack size (readValueWith .keep size (readArray size item) object) (.array items) := by
  intro rest hrest hsize
  cases items with
  | nil => rfl
  | cons v items =>
    obtain ⟨first, more, heq, hspace, hclose⟩ :=
      exists_cons_print (integral v List.mem_cons_self) (printItems items (0x5D :: rest))
    have hlength := length_lt_print v (printItems items (0x5D :: rest))
    have hlengths := length_printItems items (0x5D :: rest)
    simp only [print, List.length_cons] at hsize hlengths
    have hread := readItems_print h (show items.length < size by omega) []
      (show (v.print (printItems items (0x5D :: rest))).length ≤ size by omega)
    rw [heq] at hread
    simp only [print, readValueWith, skipSpaces_cons (show isSpace 0x5B = false from rfl), heq,
      readArray, skipSpaces_cons hspace]
    split
    · next heq' => exact absurd (List.cons.inj heq').1 hclose
    · rw [hread]
      rfl

theorem readValueWith_object {size : Nat} {item : Reader Json} {members : List (String × Json)}
    (sorted : members.Pairwise fun a b => a.1 < b.1)
    (h : ∀ w ∈ members.map (·.2), ReadsBack size item w) (array : Reader Json) :
    ReadsBack size (readValueWith .keep size array (readObject .keep size item))
      (.object members) := by
  intro rest hrest hsize
  cases members with
  | nil => rfl
  | cons member members =>
    obtain ⟨key, v⟩ := member
    have hkey := length_printKey key (v.print (printMembers members (0x7D :: rest)))
    have hlength := length_lt_print v (printMembers members (0x7D :: rest))
    have hlengths := length_printMembers members (0x7D :: rest)
    simp only [print, List.length_cons] at hsize hlengths
    have hread := readMembers_print h (show members.length < size by omega) .empty
      (show (printKey key (v.print (printMembers members (0x7D :: rest)))).length ≤ size by omega)
    have hmap : ((key, v) :: members).foldl (fun m e => m.insert e.1 e.2) .empty =
        (⟨(key, v) :: members, sorted⟩ : KeyMap Json) := KeyMap.ofList_eq (.refl _)
    rw [hmap] at hread
    simp only [print, readValueWith, skipSpaces_cons (show isSpace 0x7B = false from rfl),
      readObject]
    have hquote : skipSpaces (printKey key (v.print (printMembers members (0x7D :: rest)))) =
        printKey key (v.print (printMembers members (0x7D :: rest))) :=
      skipSpaces_cons rfl _
    rw [hquote]
    split
    · next heq => exact absurd (List.cons.inj heq).1 (by decide)
    · rw [hread]
      rfl

/-- **A tree of integers, texts and flags is read as it was printed.** -/
theorem readValue_print {size room : Nat} {v : Json} (integral : v.Integral) (ordered : v.Ordered)
    (hroom : v.nesting ≤ room) : ReadsBack size (readValue .keep size room) v := by
  induction room generalizing v with
  | zero => exact readValueWith_scalar integral (Nat.le_zero.1 hroom) _ _
  | succ room ih =>
    rcases Nat.eq_zero_or_pos v.nesting with hscalar | hpos
    · exact readValueWith_scalar integral hscalar _ _
    have hinside : ∀ w ∈ v.children, ReadsBack size (readValue .keep size room) w :=
      fun w hw => ih (integral.inside w hw) (ordered.children w hw)
        (Nat.le_of_lt_succ (Nat.lt_of_lt_of_le (nesting_lt_of_mem_children hw) hroom))
    cases v with
    | null | bool _ | number _ | string _ => cases hpos
    | array items => exact readValueWith_array integral.inside hinside _
    | object members => exact readValueWith_object ordered.1 hinside _

end Json

end DebugBridge

import DebugBridge.Proofs.Json.Layout
import Mathlib.Tactic.ByContra

/-!
# Proofs/Json/Lexeme — words and strings, read on their own

A reader of words and strings takes bytes off the front of a text and looks at one byte more at
most. So what it takes them for depends on these bytes alone, as long as the byte after them ends a
word (`Local`). What a word or a string stands for is therefore what the reader takes it for when
nothing else is there (`Word.read?`, `Quoted.read?`).
-/

namespace DebugBridge

namespace Json

variable {α β : Type}

/-! ## Readers -/

/-- Reading in two steps succeeds if both do. -/
theorem exists_of_bind {read : Reader α} {next : α → Reader β} {bytes : List UInt8} {front : Front β}
    (h : (do
      let (a, rest) ← read bytes
      next a rest) = .ok front) :
    ∃ a rest, read bytes = .ok (a, rest) ∧ next a rest = .ok front := by
  rcases hread : read bytes with fault | ⟨a, rest⟩
  · rw [hread] at h
    cases h
  · rw [hread] at h
    exact ⟨a, rest, rfl, h⟩

/-- Reading and changing what was read succeeds if the reading does. -/
theorem exists_of_map {read : Reader α} {f : α → β} {bytes rest : List UInt8} {b : β}
    (h : ((read bytes).map fun (a, rest) => (f a, rest)) = .ok (b, rest)) :
    ∃ a, read bytes = .ok (a, rest) ∧ b = f a := by
  rcases hread : read bytes with fault | ⟨a, mid⟩
  · rw [hread] at h
    cases h
  · rw [hread] at h
    cases h
    exact ⟨a, rfl, rfl⟩

/-- **A reader that looks no further than it reads**, one byte apart, which it only wants to be the
same, or to end a word. -/
def Local (shape : List UInt8 → Prop) (read : Reader α) : Prop :=
  ∀ bytes a rest, read bytes = .ok (a, rest) →
    ∃ used, bytes = used ++ rest ∧ shape used ∧
      ∀ rest', rest'.head? = rest.head? ∨ Ends rest' → read (used ++ rest') = .ok (a, rest')

/-- What is read in two steps has the shape if both parts have it. -/
structure Appends (shape : List UInt8 → Prop) : Prop where
  nil : shape []
  append : ∀ {x y}, shape x → shape y → shape (x ++ y)

namespace Local

variable {shape : List UInt8 → Prop} {read : Reader α}

/-- A reader that takes nothing looks no further. -/
theorem pure (hshape : Appends shape) (a : α) : Local shape fun rest => .ok (a, rest) := by
  intro bytes a rest h
  cases h
  exact ⟨[], rfl, hshape.nil, fun rest' _ => rfl⟩

/-- A reader that always fails looks no further. -/
theorem error (fault : TextFault) :
    Local shape fun _ => (.error fault : Except TextFault (Front α)) := by
  intro bytes a rest h
  cases h

/-- **Reading in two steps** looks no further than it reads if neither step does. -/
theorem bind (hshape : Appends shape) (h : Local shape read) (next : α → Reader β)
    (hnext : ∀ a, Local shape (next a)) :
    Local shape (fun bytes => do
      let (a, rest) ← read bytes
      next a rest) := by
  intro bytes b rest hread
  obtain ⟨a, mid, hfirst, hsecond⟩ := exists_of_bind hread
  obtain ⟨first, rfl, hfirstShape, hfirstRead⟩ := h _ _ _ hfirst
  obtain ⟨second, rfl, hsecondShape, hsecondRead⟩ := hnext a _ _ _ hsecond
  refine ⟨first ++ second, (List.append_assoc ..).symm,
    hshape.append hfirstShape hsecondShape, fun rest' hrest' => ?_⟩
  have hhead : (second ++ rest').head? = (second ++ rest).head? ∨ Ends (second ++ rest') := by
    cases second with
    | nil => exact hrest'
    | cons byte second => exact .inl rfl
  simp only [List.append_assoc, hfirstRead _ hhead, Except.bind, Bind.bind]
  exact hsecondRead rest' hrest'

/-- Changing what was read makes a reader look no further. -/
theorem map (h : Local shape read) (f : α → β) :
    Local shape (fun bytes => (read bytes).map fun (a, rest) => (f a, rest)) := by
  intro bytes b rest hread
  obtain ⟨a, hfirst, rfl⟩ := exists_of_map hread
  obtain ⟨used, rfl, hused, hlocal⟩ := h _ _ _ hfirst
  refine ⟨used, rfl, hused, fun rest' hrest' => ?_⟩
  dsimp only
  rw [hlocal rest' hrest']
  rfl

/-- A reader that goes on one way after some bytes and another way where none of them is there. -/
theorem split_on (hshape : Appends shape) {special : List UInt8}
    (hspecial : ∀ byte ∈ special, shape [byte] ∧ isBare byte = true) {there : UInt8 → Reader α}
    {otherwise : Reader α}
    (hthere : ∀ byte ∈ special, ∀ rest, read (byte :: rest) = there byte rest)
    (hotherwise : ∀ bytes, (∀ byte ∈ special, ∀ rest, bytes ≠ byte :: rest) →
      read bytes = otherwise bytes)
    (h : ∀ byte, Local shape (there byte)) (h' : Local shape otherwise) : Local shape read := by
  intro bytes a rest hread
  by_cases hfirst : ∃ byte ∈ special, ∃ more, bytes = byte :: more
  · obtain ⟨byte, hbyte, more, rfl⟩ := hfirst
    rw [hthere byte hbyte] at hread
    obtain ⟨used, rfl, hused, hlocal⟩ := h byte _ _ _ hread
    refine ⟨byte :: used, rfl, hshape.append (hspecial byte hbyte).1 hused, fun rest' hrest' => ?_⟩
    rw [List.cons_append, hthere byte hbyte]
    exact hlocal rest' hrest'
  · have hnot : ∀ byte ∈ special, ∀ more, bytes ≠ byte :: more :=
      fun byte hbyte more heq => hfirst ⟨byte, hbyte, more, heq⟩
    rw [hotherwise bytes hnot] at hread
    obtain ⟨used, rfl, hused, hlocal⟩ := h' _ _ _ hread
    refine ⟨used, rfl, hused, fun rest' hrest' => ?_⟩
    rw [hotherwise]
    · exact hlocal rest' hrest'
    intro byte hbyte more heq
    cases used with
    | nil =>
      obtain rfl : rest' = byte :: more := heq
      rcases hrest' with hhead | hends
      · obtain ⟨tail, rfl⟩ := List.head?_eq_some_iff.1 hhead.symm
        exact hnot byte hbyte tail rfl
      · have hend := hends byte rfl
        rw [(hspecial byte hbyte).2] at hend
        cases hend
    | cons first used =>
      obtain rfl := (List.cons.inj heq).1
      exact hnot first hbyte _ rfl

/-- A reader that finds nothing in an empty text takes something. -/
theorem ne_nil (h : Local shape read) (hnil : ∀ a rest, read [] ≠ .ok (a, rest)) :
    Local (fun used => used ≠ [] ∧ shape used) read := by
  intro bytes a rest hread
  obtain ⟨used, rfl, hused, hlocal⟩ := h _ _ _ hread
  refine ⟨used, rfl, ⟨?_, hused⟩, hlocal⟩
  rintro rfl
  exact hnil a [] (hlocal [] (.inr nofun))

end Local

/-! ## Words -/

/-- Bytes that may all stand in a word. -/
def AllBare (used : List UInt8) : Prop :=
  ∀ byte ∈ used, isBare byte = true

/-- Bytes of words one after the other are bytes of words. -/
theorem appends_allBare : Appends AllBare where
  nil := List.forall_mem_nil _
  append hx hy := List.forall_mem_append.2 ⟨hx, hy⟩

/-- A byte that may stand in a word is such bytes by itself. -/
theorem allBare_singleton {special : List UInt8} (h : ∀ byte ∈ special, isBare byte = true) :
    ∀ byte ∈ special, AllBare [byte] ∧ isBare byte = true :=
  fun byte hbyte => ⟨List.forall_mem_singleton.2 (h byte hbyte), h byte hbyte⟩

/-- A digit may stand in a word. -/
theorem isBare_of_isDigit {byte : UInt8} (h : isDigit byte = true) : isBare byte = true := by
  have hall : ∀ b : Fin 256, isDigit (UInt8.ofNat b) = true → isBare (UInt8.ofNat b) = true := by
    decide +kernel
  have := hall ⟨byte.toNat, byte.toNat_lt⟩
  simp only [UInt8.ofNat_toNat] at this
  exact this h

/-- What stands after the digits goes on to stand after them. -/
theorem not_digit_of_head {rest rest' : List UInt8} (hrest : ∀ byte ∈ rest.head?, isDigit byte = false)
    (h : rest'.head? = rest.head? ∨ Ends rest') : ∀ byte ∈ rest'.head?, isDigit byte = false := by
  intro byte hbyte
  rcases h with hhead | hends
  · exact hrest byte (hhead ▸ hbyte)
  · by_contra hdigit
    have hbare := isBare_of_isDigit (by simpa using hdigit)
    rw [hends byte hbyte] at hbare
    cases hbare

/-- Digits are read up to the first byte that is none. -/
theorem readDigits_append (mode : Mode) {digits rest : List UInt8} (hne : digits ≠ [])
    (hdigits : ∀ byte ∈ digits, isDigit byte = true)
    (hrest : ∀ byte ∈ rest.head?, isDigit byte = false) :
    Numeral.readDigits mode (digits ++ rest) = .ok (digits, rest) := by
  have htake : rest.takeWhile isDigit = [] ∧ rest.dropWhile isDigit = rest := by
    cases rest with
    | nil => exact ⟨rfl, rfl⟩
    | cons byte rest => simp [hrest byte rfl]
  obtain ⟨first, more, rfl⟩ := List.exists_cons_of_ne_nil hne
  rw [Numeral.readDigits, List.takeWhile_append_of_pos hdigits, List.dropWhile_append_of_pos hdigits,
    htake.1, htake.2, List.append_nil]

/-- What is read as digits is digits, one at least, and no digit follows. -/
theorem readDigits_cases {mode : Mode} {bytes digits rest : List UInt8}
    (h : Numeral.readDigits mode bytes = .ok (digits, rest)) :
    bytes = digits ++ rest ∧ digits ≠ [] ∧ (∀ byte ∈ digits, isDigit byte = true) ∧
      ∀ byte ∈ rest.head?, isDigit byte = false := by
  have hall : ∀ byte ∈ bytes.takeWhile isDigit, isDigit byte = true :=
    fun byte hbyte => List.all_eq_true.1 List.all_takeWhile byte hbyte
  have hstop : ∀ byte ∈ (bytes.dropWhile isDigit).head?, isDigit byte = false := by
    intro byte hbyte
    have := List.head?_dropWhile_not isDigit bytes
    rw [hbyte] at this
    simpa using this
  unfold Numeral.readDigits at h
  split at h
  · cases h
  · cases h
  · next hne heq =>
    cases h
    exact ⟨List.takeWhile_append_dropWhile.symm, hne, hall, hstop⟩

/-- Reading digits looks at one byte more. -/
theorem local_readDigits (mode : Mode) : Local AllBare (Numeral.readDigits mode) := by
  intro bytes digits rest h
  obtain ⟨rfl, hne, hdigits, hrest⟩ := readDigits_cases h
  exact ⟨digits, rfl, fun byte hbyte => isBare_of_isDigit (hdigits byte hbyte),
    fun rest' hrest' => readDigits_append mode hne hdigits (not_digit_of_head hrest hrest')⟩

/-- What follows a zero. -/
def readAfterZero : Reader (List UInt8)
  | next :: rest => if isDigit next then .error .malformed else .ok ([0x30], next :: rest)
  | [] => .ok ([0x30], [])

/-- What follows a zero is looked at, and nothing else. -/
theorem local_readAfterZero : Local AllBare readAfterZero := by
  intro bytes digits rest h
  have hrest : bytes = rest ∧ digits = [0x30] ∧ ∀ byte ∈ rest.head?, isDigit byte = false := by
    cases bytes with
    | nil =>
      cases h
      exact ⟨rfl, rfl, nofun⟩
    | cons next bytes =>
      rw [readAfterZero] at h
      split at h
      · cases h
      · next hdigit =>
        cases h
        refine ⟨rfl, rfl, fun byte hbyte => ?_⟩
        obtain rfl := Option.some.inj hbyte
        simpa using hdigit
  obtain ⟨rfl, rfl, hrest⟩ := hrest
  refine ⟨[], rfl, appends_allBare.nil, fun rest' hrest' => ?_⟩
  have hnot := not_digit_of_head hrest hrest'
  cases rest' with
  | nil => rfl
  | cons next rest' =>
    rw [List.nil_append, readAfterZero, hnot next rfl]
    rfl

/-- Reading the digits before the point looks no further than they go. -/
theorem local_readWhole (mode : Mode) : Local AllBare (Numeral.readWhole mode) := by
  have hbare : ∀ byte ∈ ([0x30] : List UInt8), isBare byte = true :=
    List.all_eq_true.mp (by decide)
  have hzero (byte : UInt8) (hbyte : byte ∈ ([0x30] : List UInt8)) (rest : List UInt8) :
      Numeral.readWhole mode (byte :: rest) = readAfterZero rest := by
    obtain rfl := List.mem_singleton.1 hbyte
    cases rest <;> rfl
  refine Local.split_on appends_allBare (allBare_singleton hbare) hzero (fun bytes hbytes => ?_)
    (fun _ => local_readAfterZero) (local_readDigits mode)
  · rw [Numeral.readWhole.eq_def]
    split
    · next rest => exact absurd rfl (hbytes 0x30 List.mem_cons_self rest)
    · rfl

/-- The digits after a point, if there is one. -/
def readFraction (mode : Mode) : Reader (Option (List UInt8)) := fun bytes =>
  match bytes with
  | 0x2E :: rest => (Numeral.readDigits mode rest).map fun (digits, rest) => (some digits, rest)
  | _ => .ok (none, bytes)

/-- The exponent after its letter, if there is one. -/
def readPower (mode : Mode) : Reader (Option Int) := fun bytes =>
  match bytes with
  | 0x65 :: rest | 0x45 :: rest =>
    (Numeral.readExponent mode rest).map fun (exponent, rest) => (some exponent, rest)
  | _ => .ok (none, bytes)

/-- After a point digits are read. -/
theorem readFraction_point (mode : Mode) (rest : List UInt8) : readFraction mode (0x2E :: rest) =
    (Numeral.readDigits mode rest).map fun (digits, rest) => (some digits, rest) := rfl

/-- Without a point there is no fraction. -/
theorem readFraction_other (mode : Mode) {bytes : List UInt8} (h : ∀ rest, bytes ≠ 0x2E :: rest) :
    readFraction mode bytes = .ok (none, bytes) := by
  unfold readFraction
  split
  · next rest => exact absurd rfl (h rest)
  · rfl

/-- Without its letter there is no exponent. -/
theorem readPower_other (mode : Mode) {bytes : List UInt8}
    (h : ∀ rest, bytes ≠ 0x65 :: rest ∧ bytes ≠ 0x45 :: rest) :
    readPower mode bytes = .ok (none, bytes) := by
  unfold readPower
  split
  · next rest => exact absurd rfl (h rest).1
  · next rest => exact absurd rfl (h rest).2
  · rfl

/-- A numeral from its exponent on. -/
def readFromPower (mode : Mode) (negative : Bool) (whole : List UInt8)
    (fraction : Option (List UInt8)) : Reader Numeral := fun bytes => do
  let (exponent, rest) ← readPower mode bytes
  return (⟨negative, whole, fraction, exponent⟩, rest)

/-- A numeral from its fraction on. -/
def readFromFraction (mode : Mode) (negative : Bool) (whole : List UInt8) :
    Reader Numeral := fun bytes => do
  let (fraction, rest) ← readFraction mode bytes
  readFromPower mode negative whole fraction rest

/-- A numeral after its sign. -/
def readUnsigned (mode : Mode) (negative : Bool) : Reader Numeral := fun bytes => do
  let (whole, rest) ← Numeral.readWhole mode bytes
  readFromFraction mode negative whole rest

/-- A numeral is its sign and what is read after it. -/
theorem read_eq (mode : Mode) {bytes unsigned : List UInt8} {negative : Bool}
    (h : (bytes = 0x2D :: unsigned ∧ negative = true) ∨
      (bytes = unsigned ∧ (∀ rest, bytes ≠ 0x2D :: rest) ∧ negative = false)) :
    Numeral.read mode bytes = readUnsigned mode negative unsigned := by
  rcases h with ⟨rfl, rfl⟩ | ⟨rfl, hminus, rfl⟩
  all_goals
    simp only [Numeral.read, readUnsigned, readFromFraction, readFromPower, bind, Except.bind]
    split
    · rfl
    · next front _ =>
      obtain ⟨whole, rest⟩ := front
      dsimp only
      split
      · next digits _ =>
        rw [readFraction_point]
        rcases Numeral.readDigits mode digits with fault | ⟨fraction, rest⟩
        · rfl
        dsimp only [Except.map]
        split
        · rfl
        · rfl
        · next hlower hupper => rw [readPower_other mode fun rest => ⟨hlower rest, hupper rest⟩]
      · next hpoint =>
        rw [readFraction_other mode hpoint]
        dsimp only
        split
        · rfl
        · rfl
        · next hlower hupper => rw [readPower_other mode fun rest => ⟨hlower rest, hupper rest⟩]

/-- Reading a fraction looks no further than it goes. -/
theorem local_readFraction (mode : Mode) : Local AllBare (readFraction mode) := by
  have hbare : ∀ byte ∈ ([0x2E] : List UInt8), isBare byte = true :=
    List.all_eq_true.mp (by decide)
  refine Local.split_on appends_allBare (allBare_singleton hbare) (fun byte hbyte rest => ?_)
    (fun bytes hbytes => ?_) (fun _ => (local_readDigits mode).map some)
    (Local.pure appends_allBare none)
  · obtain rfl := List.mem_singleton.1 hbyte
    exact readFraction_point mode rest
  · exact readFraction_other mode (hbytes 0x2E List.mem_cons_self)

/-- The value of an exponent's digits, after its sign. -/
def readPowerDigits (mode : Mode) (negative : Bool) : Reader Int := fun bytes =>
  (Numeral.readDigits mode bytes).map fun (digits, rest) =>
    (if negative then -(Numeral.natOfDigits digits : Int) else Numeral.natOfDigits digits, rest)

/-- After a plus the digits of the exponent are read. -/
theorem readExponent_plus (mode : Mode) (rest : List UInt8) :
    Numeral.readExponent mode (0x2B :: rest) = readPowerDigits mode false rest := by
  simp only [Numeral.readExponent, readPowerDigits, bind, Except.bind]
  cases Numeral.readDigits mode rest <;> rfl

/-- After a minus the digits of the exponent are read, for a negative one. -/
theorem readExponent_minus (mode : Mode) (rest : List UInt8) :
    Numeral.readExponent mode (0x2D :: rest) = readPowerDigits mode true rest := by
  simp only [Numeral.readExponent, readPowerDigits, bind, Except.bind]
  cases Numeral.readDigits mode rest <;> rfl

/-- Without a sign the digits of the exponent are read at once. -/
theorem readExponent_other (mode : Mode) {bytes : List UInt8}
    (hplus : ∀ rest, bytes ≠ 0x2B :: rest) (hminus : ∀ rest, bytes ≠ 0x2D :: rest) :
    Numeral.readExponent mode bytes = readPowerDigits mode false bytes := by
  simp only [Numeral.readExponent, readPowerDigits, bind, Except.bind]
  split
  · next heq =>
    rw [heq]
    rfl
  · next heq =>
    rw [heq]
    rfl

/-- Reading an exponent looks no further than its digits go. -/
theorem local_readExponent (mode : Mode) : Local AllBare (Numeral.readExponent mode) := by
  have hdigits (negative : Bool) : Local AllBare (readPowerDigits mode negative) :=
    (local_readDigits mode).map fun digits =>
      if negative then -(Numeral.natOfDigits digits : Int) else Numeral.natOfDigits digits
  have hbare : ∀ byte ∈ ([0x2B, 0x2D] : List UInt8), isBare byte = true :=
    List.all_eq_true.mp (by decide)
  refine Local.split_on appends_allBare (allBare_singleton hbare) (fun byte hbyte rest => ?_)
    (fun bytes hbytes => ?_) (fun byte => hdigits (byte == 0x2D)) (hdigits false)
  · obtain rfl | rfl : byte = 0x2B ∨ byte = 0x2D := by simpa using hbyte
    · exact readExponent_plus mode rest
    · exact readExponent_minus mode rest
  · exact readExponent_other mode (hbytes 0x2B (by decide)) (hbytes 0x2D (by decide))

/-- Reading an exponent and its letter looks no further than they go. -/
theorem local_readPower (mode : Mode) : Local AllBare (readPower mode) := by
  have hbare : ∀ byte ∈ ([0x65, 0x45] : List UInt8), isBare byte = true :=
    List.all_eq_true.mp (by decide)
  refine Local.split_on appends_allBare (allBare_singleton hbare) (fun byte hbyte rest => ?_)
    (fun bytes hbytes => ?_) (fun _ => (local_readExponent mode).map some)
    (Local.pure appends_allBare none)
  · obtain rfl | rfl : byte = 0x65 ∨ byte = 0x45 := by simpa using hbyte
    · rfl
    · rfl
  · exact readPower_other mode fun rest =>
      ⟨hbytes 0x65 (by decide) rest, hbytes 0x45 (by decide) rest⟩

/-- Reading a numeral after its sign looks no further than it goes. -/
theorem local_readUnsigned (mode : Mode) (negative : Bool) :
    Local AllBare (readUnsigned mode negative) := by
  have hpower (whole : List UInt8) (fraction : Option (List UInt8)) :
      Local AllBare (readFromPower mode negative whole fraction) :=
    (local_readPower mode).bind appends_allBare _ fun exponent =>
      Local.pure appends_allBare (Numeral.mk negative whole fraction exponent)
  have hfraction (whole : List UInt8) : Local AllBare (readFromFraction mode negative whole) :=
    (local_readFraction mode).bind appends_allBare _ (hpower whole)
  exact (local_readWhole mode).bind appends_allBare _ hfraction

/-- **Reading a numeral** looks no further than it goes. -/
theorem local_read (mode : Mode) : Local AllBare (Numeral.read mode) := by
  have hbare : ∀ byte ∈ ([0x2D] : List UInt8), isBare byte = true :=
    List.all_eq_true.mp (by decide)
  refine Local.split_on appends_allBare (allBare_singleton hbare) (fun byte hbyte rest => ?_)
    (fun bytes hbytes => ?_) (fun _ => local_readUnsigned mode true)
    (local_readUnsigned mode false)
  · obtain rfl := List.mem_singleton.1 hbyte
    exact read_eq mode (.inl ⟨rfl, rfl⟩)
  · exact read_eq mode (.inr ⟨rfl, hbytes 0x2D List.mem_cons_self, rfl⟩)

/-- The value of a numeral that was read. -/
def numeralValue (mode : Mode) (numeral : Numeral) : Reader Json := fun rest =>
  match mode with
  | .skip => .ok (.null, rest)
  | .keep =>
    match numeral.number? with
    | some value => .ok (.number value, rest)
    | none => .error .malformed

/-- Reading a number looks no further than its numeral goes. -/
theorem local_readNumber (mode : Mode) : Local AllBare (readNumber mode) := by
  refine (local_read mode).bind appends_allBare (numeralValue mode) fun numeral => ?_
  cases mode with
  | skip => exact Local.pure appends_allBare Json.null
  | keep =>
    unfold numeralValue
    cases numeral.number? with
    | none => exact Local.error _
    | some value => exact Local.pure appends_allBare (Json.number value)

/-- Reading the rest of a keyword looks no further than it goes. -/
theorem local_readKeyword (value : Json) {word : List UInt8} (hword : AllBare word) :
    Local AllBare (readKeyword value word) := by
  induction word with
  | nil => exact Local.pure appends_allBare value
  | cons expected word ih =>
    obtain ⟨hexpected, hmore⟩ := List.forall_mem_cons.1 hword
    intro bytes a rest h
    cases bytes with
    | nil => cases h
    | cons byte bytes =>
      rw [readKeyword] at h
      split at h
      · next heq =>
        subst heq
        obtain ⟨used, rfl, hused, hlocal⟩ := ih hmore _ _ _ h
        refine ⟨byte :: used, rfl, List.forall_mem_cons.2 ⟨hexpected, hused⟩, fun rest' hrest' => ?_⟩
        rw [List.cons_append, readKeyword, if_pos rfl]
        exact hlocal rest' hrest'
      · cases h

/-! ### What a word stands for -/

/-- A number, by its first byte. -/
def readNumeric (mode : Mode) : Reader Json
  | byte :: rest =>
    if byte == 0x2D || isDigit byte then readNumber mode (byte :: rest) else .error .malformed
  | [] => .error .unfinished

/-- Reading a number by its first byte looks no further than the number goes. -/
theorem local_readNumeric (mode : Mode) : Local AllBare (readNumeric mode) := by
  have hnil (v : Json) (rest : List UInt8) : readNumber mode [] ≠ .ok (v, rest) := by
    cases mode <;> exact nofun
  intro bytes v rest h
  cases bytes with
  | nil => cases h
  | cons byte bytes =>
    rw [readNumeric] at h
    split at h
    · next hfirst =>
      obtain ⟨used, heq, ⟨hne, hused⟩, hlocal⟩ := (local_readNumber mode).ne_nil hnil _ _ _ h
      obtain ⟨first, used, rfl⟩ := List.exists_cons_of_ne_nil hne
      obtain ⟨rfl, rfl⟩ := List.cons.inj heq
      refine ⟨byte :: used, rfl, hused, fun rest' hrest' => ?_⟩
      rw [List.cons_append, readNumeric, if_pos hfirst]
      exact hlocal rest' hrest'
    · cases h

/-- The value of the keyword with a first letter, and its other letters. -/
def keyword (first : UInt8) : Json × List UInt8 :=
  if first = 0x6E then (.null, [0x75, 0x6C, 0x6C])
  else if first = 0x74 then (.bool true, [0x72, 0x75, 0x65])
  else (.bool false, [0x61, 0x6C, 0x73, 0x65])

/-- A keyword is made of bytes of words. -/
theorem allBare_keyword (first : UInt8) : AllBare (keyword first).2 := by
  unfold keyword
  split
  · exact List.all_eq_true.mp (by decide)
  · split <;> exact List.all_eq_true.mp (by decide)

/-- A value that begins with neither a quote nor a bracket. -/
def readBare (mode : Mode) : Reader Json
  | 0x6E :: rest => readKeyword .null [0x75, 0x6C, 0x6C] rest
  | 0x74 :: rest => readKeyword (.bool true) [0x72, 0x75, 0x65] rest
  | 0x66 :: rest => readKeyword (.bool false) [0x61, 0x6C, 0x73, 0x65] rest
  | bytes => readNumeric mode bytes

/-- What begins with the letter of no keyword is read as a number. -/
theorem readBare_other {mode : Mode} {first : UInt8} {rest : List UInt8} (hnull : first ≠ 0x6E)
    (htrue : first ≠ 0x74) (hfalse : first ≠ 0x66) :
    readBare mode (first :: rest) = readNumeric mode (first :: rest) := by
  rw [readBare.eq_def]
  split
  · next heq => exact absurd (List.cons.inj heq).1 hnull
  · next heq => exact absurd (List.cons.inj heq).1 htrue
  · next heq => exact absurd (List.cons.inj heq).1 hfalse
  · rfl

/-- **Reading a value without quotes and brackets** takes bytes of a word, one at least, and looks
no further. -/
theorem local_readBare (mode : Mode) :
    Local (fun used => used ≠ [] ∧ AllBare used) (readBare mode) := by
  have hbare : ∀ byte ∈ ([0x6E, 0x74, 0x66] : List UInt8), isBare byte = true :=
    List.all_eq_true.mp (by decide)
  refine Local.ne_nil (Local.split_on appends_allBare (allBare_singleton hbare)
    (fun byte hbyte rest => ?_) (fun bytes hbytes => ?_)
    (fun byte => local_readKeyword (keyword byte).1 (allBare_keyword byte))
    (local_readNumeric mode)) fun v rest => nofun
  · obtain rfl | rfl | rfl : byte = 0x6E ∨ byte = 0x74 ∨ byte = 0x66 := by simpa using hbyte
    · rfl
    · rfl
    · rfl
  · cases bytes with
    | nil => rfl
    | cons first rest =>
      have hne (byte : UInt8) (hbyte : byte ∈ ([0x6E, 0x74, 0x66] : List UInt8)) : first ≠ byte :=
        fun heq => hbytes byte hbyte rest (by rw [heq])
      exact readBare_other (hne _ (by decide)) (hne _ (by decide)) (hne _ (by decide))

namespace Word

/-- **What a word stands for**, if it is a keyword or a numeral. -/
def read? (mode : Mode) (word : Word) : Option Json :=
  match readBare mode word.bytes with
  | .ok (value, []) => some value
  | _ => none

/-- A word stands for a value if the reader takes all of it for that value. -/
theorem read?_eq_some_iff {mode : Mode} {word : Word} {v : Json} :
    word.read? mode = some v ↔ readBare mode word.bytes = .ok (v, []) := by
  unfold read?
  split
  · next value heq => simp [heq]
  · next hnot => exact ⟨nofun, fun h => absurd h (hnot v)⟩

/-- **A word is read as what it stands for**, whatever comes after its end. -/
theorem readBare_append {mode : Mode} {word : Word} {v : Json} (h : word.read? mode = some v)
    {rest : List UInt8} (hrest : Ends rest) :
    readBare mode (word.bytes ++ rest) = .ok (v, rest) := by
  obtain ⟨used, heq, -, hlocal⟩ := local_readBare mode _ _ _ (read?_eq_some_iff.1 h)
  rw [heq, List.append_nil]
  exact hlocal rest (.inr hrest)

/-- What is read without quotes and brackets is a word that stands for it. -/
theorem exists_of_readBare {mode : Mode} {bytes rest : List UInt8} {v : Json}
    (h : readBare mode bytes = .ok (v, rest)) :
    ∃ word : Word, bytes = word.bytes ++ rest ∧ word.read? mode = some v := by
  obtain ⟨used, rfl, ⟨hne, hbare⟩, hlocal⟩ := local_readBare mode _ _ _ h
  have halone := hlocal [] (.inr nofun)
  rw [List.append_nil] at halone
  exact ⟨⟨used, hne, hbare⟩, rfl, read?_eq_some_iff.2 halone⟩

end Word

/-! ## Strings -/

/-- Insides of strings one after the other are the inside of a string. -/
theorem appends_inside : Appends Inside where
  nil := .nil
  append {x y} hx hy := by
    induction hx with
    | nil => exact hy
    | plain hquote hslash _ ih => exact .plain hquote hslash ih
    | escaped byte _ ih => exact .escaped byte ih

/-- A hexadecimal digit may stand inside a string. -/
theorem inside_hexDigit {byte : UInt8} {n : Nat} (h : hexValue? byte = some n) {rest : List UInt8}
    (later : Inside rest) : Inside (byte :: rest) := by
  have hquote : hexValue? 0x22 = none := by decide
  have hslash : hexValue? 0x5C = none := by decide
  refine .plain ?_ ?_ later
  · rintro rfl
    rw [hquote] at h
    cases h
  · rintro rfl
    rw [hslash] at h
    cases h

/-- Reading a code unit takes its four digits and looks no further. -/
theorem local_readUnit : Local Inside readUnit := by
  intro bytes unit rest h
  unfold readUnit at h
  split at h
  · next a b c d _ =>
    split at h
    · next ha hb hc hd =>
      cases h
      refine ⟨[a, b, c, d], rfl, inside_hexDigit ha (inside_hexDigit hb (inside_hexDigit hc
        (inside_hexDigit hd .nil))), fun rest' _ => ?_⟩
      simp only [List.cons_append, List.nil_append, readUnit, ha, hb, hc, hd]
    · cases h
  · cases h

/-- A code unit that must be a trailing surrogate. -/
def trailing (unit : Nat) : Reader Nat := fun rest =>
  if isTrailing unit then .ok (unit, rest) else .error .malformed

/-- A trailing surrogate after its mark. -/
def readTrailingUnit : Reader Nat := fun bytes => do
  let (unit, rest) ← readUnit bytes
  trailing unit rest

/-- Reading a trailing surrogate after its mark takes its four digits and looks no further. -/
theorem local_readTrailingUnit : Local Inside readTrailingUnit := by
  refine local_readUnit.bind appends_inside trailing fun unit => ?_
  unfold trailing
  split
  · exact Local.pure appends_inside unit
  · exact Local.error _

/-- Reading a trailing surrogate takes the mark and the four digits. -/
theorem local_readTrailing : Local Inside readTrailing := by
  intro bytes unit rest h
  unfold readTrailing at h
  split at h
  · cases h
  · cases h
  · next more =>
    obtain ⟨used, rfl, hused, hlocal⟩ := local_readTrailingUnit _ _ _ h
    exact ⟨0x5C :: 0x75 :: used, rfl, .escaped _ hused, fun rest' hrest' => hlocal rest' hrest'⟩
  · cases h

/-- The bytes of a code unit, with its trailing surrogate if it needs one. -/
def afterUnit (mode : Mode) (unit : Nat) : Reader (List UInt8) := fun rest =>
  match mode with
  | .skip => .ok ([], rest)
  | .keep =>
    if isTrailing unit then .error .malformed
    else if isLeading unit then
      (readTrailing rest).map fun (trailing, rest) =>
        (String.utf8EncodeChar
          (Char.ofNat (0x10000 + 0x400 * (unit - 0xD800) + (trailing - 0xDC00))), rest)
    else .ok (String.utf8EncodeChar (Char.ofNat unit), rest)

/-- What is read after a code unit is a trailing surrogate or nothing. -/
theorem local_afterUnit (mode : Mode) (unit : Nat) : Local Inside (afterUnit mode unit) := by
  cases mode with
  | skip => exact Local.pure appends_inside []
  | keep =>
    unfold afterUnit
    dsimp only
    split
    · exact Local.error _
    · split
      · exact local_readTrailing.map fun trailing => String.utf8EncodeChar
          (Char.ofNat (0x10000 + 0x400 * (unit - 0xD800) + (trailing - 0xDC00)))
      · exact Local.pure appends_inside (String.utf8EncodeChar (Char.ofNat unit))

/-- An escape with a code unit is the unit and what has to follow it. -/
theorem readEscape_unit (mode : Mode) (bytes : List UInt8) :
    readEscape mode (0x75 :: bytes) = (do
      let (unit, rest) ← readUnit bytes
      afterUnit mode unit rest) := by
  rfl

/-- What follows a backslash makes a piece of a string with it. -/
theorem local_readEscape (mode : Mode) :
    Local (fun used => Inside (0x5C :: used)) (readEscape mode) := by
  intro bytes piece rest h
  rw [readEscape.eq_def] at h
  split at h
  · cases h
  · next more =>
    have hunit := local_readUnit.bind appends_inside (afterUnit mode) (local_afterUnit mode)
    obtain ⟨used, rfl, hused, hlocal⟩ := hunit _ _ _ h
    refine ⟨0x75 :: used, rfl, .escaped _ hused, fun rest' hrest' => ?_⟩
    rw [List.cons_append, readEscape_unit]
    exact hlocal rest' hrest'
  · next letter more hletter =>
    split at h
    · next byte hbyte =>
      cases h
      refine ⟨[letter], rfl, .escaped _ .nil, fun rest' _ => ?_⟩
      rw [List.singleton_append, readEscape.eq_def]
      split
      · next heq => cases heq
      · next heq => exact absurd (List.cons.inj heq).1 hletter
      · next heq =>
        obtain ⟨rfl, rfl⟩ := List.cons.inj heq
        rw [hbyte]
    · cases h

/-- After a backslash an escape is read. -/
theorem readPiece_slash (mode : Mode) (bytes : List UInt8) : readPiece mode (0x5C :: bytes) =
    (readEscape mode bytes).map fun (inside, rest) => (some inside, rest) := rfl

/-- **A piece of a string** is the closing quote, or bytes that may stand inside a string. -/
theorem readPiece_cases {mode : Mode} {bytes rest : List UInt8} {piece : Option (List UInt8)}
    (h : readPiece mode bytes = .ok (piece, rest)) :
    (piece = none ∧ bytes = 0x22 :: rest) ∨
      ∃ inside used, piece = some inside ∧ bytes = used ++ rest ∧ used ≠ [] ∧ Inside used ∧
        ∀ rest', rest'.head? = rest.head? ∨ Ends rest' →
          readPiece mode (used ++ rest') = .ok (some inside, rest') := by
  rw [readPiece.eq_def] at h
  split at h
  · cases h
  · cases h
    exact .inl ⟨rfl, rfl⟩
  · next more =>
    obtain ⟨inside, hescape, rfl⟩ := exists_of_map h
    obtain ⟨used, rfl, hused, hlocal⟩ := local_readEscape mode _ _ _ hescape
    refine .inr ⟨inside, 0x5C :: used, rfl, rfl, List.cons_ne_nil _ _, hused, fun rest' hrest' => ?_⟩
    rw [List.cons_append, readPiece_slash, hlocal rest' hrest']
    rfl
  · next byte more hquote hslash =>
    split at h
    · cases h
    · next hcontrol =>
      cases h
      refine .inr ⟨[byte], [byte], rfl, rfl, List.cons_ne_nil _ _, .plain hquote hslash .nil,
        fun rest' _ => ?_⟩
      rw [List.singleton_append, readPiece.eq_def]
      split
      · next heq => cases heq
      · next heq => exact absurd (List.cons.inj heq).1 hquote
      · next heq => exact absurd (List.cons.inj heq).1 hslash
      · next heq =>
        obtain ⟨rfl, rfl⟩ := List.cons.inj heq
        rw [if_neg hcontrol]

/-- **The pieces up to the quote** are the inside of a string, which is read in the same way
whatever follows, within as many rounds as it has bytes. -/
theorem readPieces_local {mode : Mode} {size : Nat} {before bytes rest inside : List UInt8}
    (h : readPieces mode size before bytes = .ok (inside, rest)) :
    ∃ used, Inside used ∧ bytes = used ++ 0x22 :: rest ∧
      ∀ size' rest', used.length < size' →
        readPieces mode size' before (used ++ 0x22 :: rest') = .ok (inside, rest') := by
  induction size generalizing before bytes with
  | zero => cases h
  | succ size ih =>
    rw [readPieces] at h
    rcases hpiece : readPiece mode bytes with fault | ⟨piece, mid⟩
    · rw [hpiece] at h
      cases h
    rw [hpiece] at h
    obtain ⟨rfl, rfl⟩ | ⟨bytesOf, first, rfl, rfl, hne, hfirst, hlocal⟩ := readPiece_cases hpiece
    · cases h
      refine ⟨[], .nil, rfl, fun size' rest' hsize => ?_⟩
      obtain ⟨size', rfl⟩ := Nat.exists_eq_succ_of_ne_zero (Nat.ne_of_gt hsize)
      rfl
    · obtain ⟨later, hlater, rfl, hread⟩ := ih h
      refine ⟨first ++ later, appends_inside.append hfirst hlater, (List.append_assoc ..).symm,
        fun size' rest' hsize => ?_⟩
      have hpos := List.length_pos_iff.2 hne
      rw [List.length_append] at hsize
      obtain ⟨size', rfl⟩ := Nat.exists_eq_succ_of_ne_zero (show size' ≠ 0 by omega)
      have hhead : (later ++ 0x22 :: rest').head? = (later ++ 0x22 :: rest).head? := by
        cases later <;> rfl
      rw [List.append_assoc, readPieces, hlocal _ (.inl hhead)]
      exact hread size' rest' (by omega)

/-- **A string is read in the same way whatever follows its quote**, within as many rounds as it has
bytes. -/
theorem readString_local {mode : Mode} {size : Nat} {bytes rest : List UInt8} {value : String}
    (h : readString mode size bytes = .ok (value, rest)) :
    ∃ used, Inside used ∧ bytes = used ++ 0x22 :: rest ∧
      ∀ size' rest', used.length < size' →
        readString mode size' (used ++ 0x22 :: rest') = .ok (value, rest') := by
  unfold readString at h
  rcases hpieces : readPieces mode size [] bytes with fault | ⟨inside, mid⟩
  · rw [hpieces] at h
    cases h
  rw [hpieces] at h
  obtain ⟨used, hused, rfl, hread⟩ := readPieces_local hpieces
  cases mode with
  | skip =>
    cases h
    refine ⟨used, hused, rfl, fun size' rest' hsize => ?_⟩
    rw [readString, hread size' rest' hsize]
    rfl
  | keep =>
    dsimp only [bind, Except.bind] at h
    split at h
    · next text htext =>
      cases h
      refine ⟨used, hused, rfl, fun size' rest' hsize => ?_⟩
      simp only [readString, hread size' rest' hsize, bind, Except.bind, htext]
    · cases h

namespace Quoted

/-- **The text that a string stands for**, if it is one; nothing is kept of a skipped one. -/
def read? (mode : Mode) (text : Quoted) : Option String :=
  match readString mode (text.inside.length + 1) (text.inside ++ [0x22]) with
  | .ok (value, _) => some value
  | .error _ => none

/-- A string is read as the text that it stands for, whatever comes after it. -/
theorem readString_append {mode : Mode} {text : Quoted} {value : String}
    (h : text.read? mode = some value) {size : Nat} (hsize : text.inside.length < size)
    (rest : List UInt8) :
    readString mode size (text.inside ++ 0x22 :: rest) = .ok (value, rest) := by
  unfold read? at h
  split at h
  · next heq =>
    cases h
    obtain ⟨used, hused, hinside, hread⟩ := readString_local heq
    obtain ⟨rfl, -⟩ := text.isInside.unique hused hinside
    exact hread size rest hsize
  · cases h

/-- What is read as a string is one that stands for it. -/
theorem exists_of_readString {mode : Mode} {size : Nat} {bytes rest : List UInt8} {value : String}
    (h : readString mode size bytes = .ok (value, rest)) :
    ∃ text : Quoted, bytes = text.inside ++ 0x22 :: rest ∧ text.read? mode = some value := by
  obtain ⟨used, hused, rfl, hread⟩ := readString_local h
  refine ⟨⟨used, hused⟩, rfl, ?_⟩
  rw [read?, hread _ [] (Nat.lt_succ_self _)]

end Quoted

end Json

end DebugBridge

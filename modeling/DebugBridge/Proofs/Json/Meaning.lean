import DebugBridge.Proofs.Json.Children
import DebugBridge.Proofs.Json.Parsing
import DebugBridge.Proofs.KeyMap
import DebugBridge.Proofs.MapM
import Mathlib.Data.List.TakeWhile

/-!
# Proofs/Json/Meaning — what written values stand for

A written value stands for a tree if its words and strings stand for something, and of members with
one key the last one counts (`Written.read?`). Reading a text gives exactly that
(`ofBytes_eq_ok_iff`), because the room for containers never runs out before the text does: a text
opens at most as many containers as it has bytes.
-/

namespace DebugBridge

namespace Json

variable {α β : Type}

namespace Written

mutual

/-- **What a value stands for**, if it does for anything. -/
def read? (mode : Mode) : Written → Option Json
  | .word w => w.read? mode
  | .string text => (text.read? mode).map .string
  | .array items => (readItems? mode items).map .array
  | .object members => (readMembers? mode members).map fun members => .ofMap (.ofList members)
  termination_by structural w => w

/-- What the items of an array stand for. -/
def readItems? (mode : Mode) : List Written → Option (List Json)
  | [] => some []
  | item :: items => do
    let item ← item.read? mode
    let items ← readItems? mode items
    return item :: items
  termination_by structural items => items

/-- What the members of an object stand for. -/
def readMembers? (mode : Mode) : List (Quoted × Written) → Option (List (String × Json))
  | [] => some []
  | (key, value) :: members => do
    let key ← key.read? mode
    let value ← value.read? mode
    let members ← readMembers? mode members
    return (key, value) :: members
  termination_by structural members => members

end

/-- A member, if its key is a text and its value stands for something. -/
def readMember? (mode : Mode) (meaning : Written → Option Json) (member : Quoted × Written) :
    Option (String × Json) :=
  (member.1.read? mode).bind fun key => (meaning member.2).map fun value => (key, value)

/-- A member whose value is nested too deep has no meaning, and all others have theirs. -/
theorem readMember?_guard (mode : Mode) (room : Nat) (member : Quoted × Written) :
    readMember? mode (fun w => if w.nesting ≤ room then w.read? mode else none) member =
      if member.2.nesting ≤ room then readMember? mode (read? mode) member else none := by
  unfold readMember?
  by_cases hmember : member.2.nesting ≤ room <;> simp [hmember]

/-- What a value means, by its kind. -/
def byKind (word : Word → Option β) (string : Quoted → Option β) (array : List Written → Option β)
    (object : List (Quoted × Written) → Option β) : Written → Option β
  | .word w => word w
  | .string text => string text
  | .array items => array items
  | .object members => object members

variable {mode : Mode} {items : List Written} {members : List (Quoted × Written)}

/-- **An array stands for what its items stand for**, if all of them stand for something. -/
theorem read?_array : (array items).read? mode = (items.mapM (read? mode)).map .array := by
  have heq (items : List Written) : readItems? mode items = items.mapM (read? mode) := by
    induction items with
    | nil => rfl
    | cons item items ih => rw [readItems?, ih, List.mapM_cons]
  rw [read?, heq]

/-- **An object stands for what its members stand for**, of several with one key for the last. -/
theorem read?_object : (object members).read? mode =
    (members.mapM (readMember? mode (read? mode))).map fun ms => .ofMap (.ofList ms) := by
  have heq (members : List (Quoted × Written)) :
      readMembers? mode members = members.mapM (readMember? mode (read? mode)) := by
    induction members with
    | nil => rfl
    | cons member members ih =>
      rw [readMembers?, ih, List.mapM_cons, readMember?]
      cases member.1.read? mode with
      | none => rfl
      | some key => cases member.2.read? mode <;> rfl
  rw [read?, heq]

/-- A keyword has no other value than its own. -/
theorem eq_of_readKeyword {value v : Json} {letters bytes rest : List UInt8}
    (h : readKeyword value letters bytes = .ok (v, rest)) : v = value := by
  induction letters generalizing bytes with
  | nil =>
    cases h
    rfl
  | cons expected letters ih =>
    cases bytes with
    | nil => cases h
    | cons byte bytes =>
      rw [readKeyword] at h
      split at h
      · exact ih h
      · cases h

/-- A number is not nested. -/
theorem nesting_of_readNumber {v : Json} {bytes rest : List UInt8}
    (h : readNumber mode bytes = .ok (v, rest)) : v.nesting = 0 := by
  unfold readNumber at h
  rcases hnumeral : Numeral.read mode bytes with fault | ⟨numeral, mid⟩
  · rw [hnumeral] at h
    cases h
  rw [hnumeral] at h
  cases mode with
  | skip =>
    cases h
    rfl
  | keep =>
    dsimp only [bind, Except.bind] at h
    split at h
    · cases h
      rfl
    · cases h

/-- What a word stands for holds no value inside. -/
theorem nesting_of_word {word : Word} {v : Json} (h : word.read? mode = some v) :
    v.nesting = 0 := by
  have hbare := Word.read?_eq_some_iff.1 h
  unfold readBare readNumeric at hbare
  split at hbare
  · rw [eq_of_readKeyword hbare]
    rfl
  · rw [eq_of_readKeyword hbare]
    rfl
  · rw [eq_of_readKeyword hbare]
    rfl
  · split at hbare
    · split at hbare
      · exact nesting_of_readNumber hbare
      · cases hbare
    · cases hbare

/-- **The tree of a written value nests no deeper** than the value does. -/
theorem nesting_le_of_read? {w : Written} {v : Json} (h : w.read? mode = some v) :
    v.nesting ≤ w.nesting := by
  induction w using inductionOn generalizing v with
  | h w ih =>
    cases w with
    | word word =>
      rw [nesting_of_word h]
      exact Nat.zero_le _
    | string text =>
      rw [read?] at h
      obtain ⟨_, -, rfl⟩ := Option.map_eq_some_iff.1 h
      exact Nat.zero_le _
    | array items =>
      rw [read?_array] at h
      obtain ⟨values, hvalues, rfl⟩ := Option.map_eq_some_iff.1 h
      refine nesting_le_succ fun v hv => ?_
      obtain ⟨item, hitem, hread⟩ := exists_of_mem_mapM hvalues hv
      have hlt := nesting_lt_of_mem_children (w := array items) hitem
      exact Nat.le_trans (ih item hitem hread) (Nat.le_of_lt_succ hlt)
    | object members =>
      rw [read?_object] at h
      obtain ⟨values, hvalues, rfl⟩ := Option.map_eq_some_iff.1 h
      refine nesting_le_succ fun v hv => ?_
      obtain ⟨⟨key, v⟩, hmem, rfl⟩ := List.mem_map.1 hv
      obtain ⟨member, hmember, hread⟩ := exists_of_mem_mapM hvalues (KeyMap.mem_of_mem_ofList hmem)
      obtain ⟨_, -, hmap⟩ := Option.bind_eq_some_iff.1 hread
      obtain ⟨_, hvalue, heq⟩ := Option.map_eq_some_iff.1 hmap
      cases heq
      have hchild : member.2 ∈ (object members).children := List.mem_map_of_mem hmember
      exact Nat.le_trans (ih member.2 hchild hvalue)
        (Nat.le_of_lt_succ (nesting_lt_of_mem_children hchild))

end Written

/-! ## Values at the front of a text -/

variable {size : Nat} {mode : Mode} {bytes : List UInt8}

/-- A reader of words, after spaces. -/
theorem parses_readBare (mode : Mode) :
    Parses size (fun word : Word => [word.bytes]) (fun bytes => readBare mode (skipSpaces bytes))
      (Word.read? mode) where
  sound {bytes v rest} hread := by
    obtain ⟨gap, spaces, hbytes⟩ := exists_gap_append bytes
    obtain ⟨word, heq, hword⟩ := Word.exists_of_readBare hread
    refine ⟨word, gap ++ (word.bytes ++ []), .cons spaces .nil, ?_, hword⟩
    rw [hbytes, heq]
    simp
  complete {word v used rest} hused hword _ hrest := by
    obtain ⟨gap, later, spaces, hlater, rfl⟩ := spaced_cons_iff.1 hused
    obtain rfl := spaced_nil_iff.1 hlater
    obtain ⟨first, more, heq, hspace⟩ := word.solid
    have hskip := skipSpaces_gap spaces hspace (more ++ rest)
    have hbare := Word.readBare_append hword hrest
    rw [heq] at hbare
    simp only [heq, List.append_nil, List.append_assoc, List.cons_append, hskip]
    exact hbare

/-! ### By the first byte -/

section

variable {word string array object : Reader β} {first : UInt8} {more used gap : List UInt8}

/-- **A reader that goes by the first byte**: it takes a word, a string, or what follows the opening
bracket of an array or object. -/
def readByFirst (word string array object : Reader β) : Reader β := fun bytes =>
  match skipSpaces bytes with
  | [] => .error .unfinished
  | first :: more =>
    if first = 0x22 then string bytes
    else if first = 0x5B then array more
    else if first = 0x7B then object more
    else word bytes

/-- Where nothing but blanks is left there is no value. -/
theorem readByFirst_nil (h : skipSpaces bytes = []) :
    readByFirst word string array object bytes = .error .unfinished := by
  rw [readByFirst, h]

/-- The first byte that is no blank says which kind of value follows. -/
theorem readByFirst_cons (h : skipSpaces bytes = first :: more) :
    readByFirst word string array object bytes =
      if first = 0x22 then string bytes
      else if first = 0x5B then array more
      else if first = 0x7B then object more
      else word bytes := by
  rw [readByFirst, h]

/-- A word is read as a word. -/
theorem readByFirst_word {w : Word} (hused : Spaced [w.bytes] used) (rest : List UInt8) :
    readByFirst word string array object (used ++ rest) = word (used ++ rest) := by
  obtain ⟨gap, later, spaces, -, rfl⟩ := spaced_cons_iff.1 hused
  have hbytes : gap ++ (w.bytes ++ later) ++ rest =
      gap ++ (Written.word w).first :: (w.bytes.tail ++ (later ++ rest)) := by
    simp only [Written.first, List.append_assoc, ← List.cons_append, List.cons_head_tail]
  have hskip := skipSpaces_gap spaces (Written.word w).isSpace_first
    (w.bytes.tail ++ (later ++ rest))
  rw [← hbytes] at hskip
  rw [readByFirst_cons hskip, if_neg (Written.first_word_ne w rfl),
    if_neg (Written.first_word_ne w rfl), if_neg (Written.first_word_ne w rfl)]

/-- What is quoted is read as a string. -/
theorem readByFirst_string {text : Quoted} (hused : Spaced [text.bytes] used) (rest : List UInt8) :
    readByFirst word string array object (used ++ rest) = string (used ++ rest) := by
  obtain ⟨gap, later, spaces, -, rfl⟩ := spaced_cons_iff.1 hused
  have hbytes : gap ++ (text.bytes ++ later) ++ rest =
      gap ++ 0x22 :: (text.inside ++ [0x22] ++ later ++ rest) := by
    simp [Quoted.bytes]
  have hskip := skipSpaces_gap spaces (show isSpace 0x22 = false from rfl)
    (text.inside ++ [0x22] ++ later ++ rest)
  rw [← hbytes] at hskip
  rw [readByFirst_cons hskip, if_pos rfl]

/-- What begins with a bracket is read as an array. -/
theorem readByFirst_array (spaces : AllSpaces gap) (later : List UInt8) :
    readByFirst word string array object (gap ++ 0x5B :: later) = array later := by
  rw [readByFirst_cons (skipSpaces_gap spaces (show isSpace 0x5B = false from rfl) later)]
  rfl

/-- What begins with a brace is read as an object. -/
theorem readByFirst_object (spaces : AllSpaces gap) (later : List UInt8) :
    readByFirst word string array object (gap ++ 0x7B :: later) = object later := by
  rw [readByFirst_cons (skipSpaces_gap spaces (show isSpace 0x7B = false from rfl) later)]
  rfl

/-- Going by the first byte is to read words, strings, arrays and objects. -/
theorem parses_readByFirst {meaningWord : Word → Option β} {meaningString : Quoted → Option β}
    {meaningArray : List Written → Option β} {meaningObject : List (Quoted × Written) → Option β}
    (hword : Parses size (fun w : Word => [w.bytes]) word meaningWord)
    (hstring : Parses size (fun text : Quoted => [text.bytes]) string meaningString)
    (harray : Parses size Written.arrayTokens array meaningArray)
    (hobject : Parses size Written.objectTokens object meaningObject) :
    Parses size Written.tokens (readByFirst word string array object)
      (Written.byKind meaningWord meaningString meaningArray meaningObject) where
  sound {bytes b rest} hread := by
    rcases hskip : skipSpaces bytes with _ | ⟨first, more⟩
    · rw [readByFirst_nil hskip] at hread
      cases hread
    rw [readByFirst_cons hskip] at hread
    obtain ⟨gap, spaces, -, rfl⟩ := exists_gap hskip
    split at hread
    · obtain ⟨text, used, hused, heq, htext⟩ := hstring.sound hread
      exact ⟨.string text, used, hused, heq, htext⟩
    split at hread
    · next hopen =>
      subst hopen
      obtain ⟨items, used, hused, rfl, hitems⟩ := harray.sound hread
      have hspaced := Written.spaced_array_iff.2 ⟨gap, used, spaces, hused, rfl⟩
      exact ⟨.array items, _, hspaced, by simp, hitems⟩
    split at hread
    · next hopen =>
      subst hopen
      obtain ⟨members, used, hused, rfl, hmembers⟩ := hobject.sound hread
      have hspaced := Written.spaced_object_iff.2 ⟨gap, used, spaces, hused, rfl⟩
      exact ⟨.object members, _, hspaced, by simp, hmembers⟩
    · obtain ⟨w, used, hused, heq, hw⟩ := hword.sound hread
      exact ⟨.word w, used, hused, heq, hw⟩
  complete {w b used rest} hused hmeaning hsize hrest := by
    cases w with
    | word w =>
      rw [readByFirst_word hused]
      exact hword.complete hused hmeaning hsize hrest
    | string text =>
      rw [readByFirst_string hused]
      exact hstring.complete hused hmeaning hsize hrest
    | array items =>
      obtain ⟨gap, later, spaces, hlater, rfl⟩ := Written.spaced_array_iff.1 hused
      simp only [List.length_append, List.length_cons] at hsize
      rw [List.append_assoc, List.cons_append, readByFirst_array spaces]
      exact harray.complete hlater hmeaning (by omega) hrest
    | object members =>
      obtain ⟨gap, later, spaces, hlater, rfl⟩ := Written.spaced_object_iff.1 hused
      simp only [List.length_append, List.length_cons] at hsize
      rw [List.append_assoc, List.cons_append, readByFirst_object spaces]
      exact hobject.complete hlater hmeaning (by omega) hrest

end

section

variable {array object : Reader Json}

/-- Where nothing but blanks is left no value is read. -/
theorem readValueWith_nil (h : skipSpaces bytes = []) :
    readValueWith mode size array object bytes = .error .unfinished := by
  rw [readValueWith, h]

/-- What a value is goes by its first byte. -/
theorem readValueWith_cons {first : UInt8} {more : List UInt8} (h : skipSpaces bytes = first :: more) :
    readValueWith mode size array object bytes =
      if first = 0x22 then (readKey mode size bytes).map fun (text, rest) => (.string text, rest)
      else if first = 0x5B then array more
      else if first = 0x7B then object more
      else readBare mode (first :: more) := by
  unfold readValueWith readKey
  rw [h]
  split
  case h_8 =>
    next byte rest hnull htrue hfalse hquote hbracket hbrace heq =>
    obtain ⟨rfl, rfl⟩ := List.cons.inj heq
    rw [if_neg hquote, if_neg hbracket, if_neg hbrace, readBare_other hnull htrue hfalse,
      readNumeric]
  all_goals next heq =>
    cases heq
    try rfl

/-- **A value is parsed if arrays and objects are.** -/
theorem parses_readValueWith {meaningArray : List Written → Option Json}
    {meaningObject : List (Quoted × Written) → Option Json}
    (harray : Parses size Written.arrayTokens array meaningArray)
    (hobject : Parses size Written.objectTokens object meaningObject) :
    Parses size Written.tokens (readValueWith mode size array object)
      (Written.byKind (Word.read? mode) (fun text => (text.read? mode).map .string) meaningArray
        meaningObject) := by
  refine (parses_readByFirst (parses_readBare mode) ((parses_readKey mode size).map Json.string)
    harray hobject).of_ok_iff fun bytes front => ?_
  rcases hskip : skipSpaces bytes with _ | ⟨first, more⟩
  · rw [readValueWith_nil hskip, readByFirst_nil hskip]
  · rw [readValueWith_cons hskip, readByFirst_cons hskip]
    simp only [hskip]

end

/-! ### Arrays and objects -/

section

variable {item : Reader Json} {meaning : Written → Option Json}

/-- Items are read as entries of a list, the last one first. -/
theorem readItems_eq (item : Reader Json) (rounds : Nat) (before : List Json) (bytes : List UInt8) :
    readItems item rounds before bytes =
      (readEntries 0x5D (fun before bytes => (item bytes).map fun (v, rest) => (v :: before, rest))
        rounds before bytes).map fun (items, rest) => (items.reverse, rest) := by
  induction rounds generalizing before bytes with
  | zero => rfl
  | succ rounds ih =>
    rw [readItems, readEntries]
    rcases item bytes with fault | ⟨v, rest⟩
    · rfl
    change _ = (readAfter 0x5D (readEntries 0x5D _ rounds (v :: before)) _ rest).map _
    rw [map_readAfter, readAfter_bracket]
    simp only [← ih]
    rfl

/-- An array is read as a list. -/
theorem readArray_eq (item : Reader Json) (bytes : List UInt8) : readArray size item bytes =
    (readList 0x5D (fun before bytes => (item bytes).map fun (v, rest) => (v :: before, rest))
      size [] bytes).map fun (items, rest) => (.array items.reverse, rest) := by
  unfold readArray readList
  dsimp only
  split
  · next heq =>
    rw [heq]
    rfl
  · next hnot =>
    have hhead : (skipSpaces bytes).head? ≠ some 0x5D := fun h => by
      obtain ⟨rest, heq⟩ := List.head?_eq_some_iff.1 h
      exact hnot rest heq
    rw [if_neg hhead, readItems_eq]
    cases readEntries 0x5D (fun before bytes => (item bytes).map fun (v, rest) => (v :: before, rest))
      size [] (skipSpaces bytes) <;> rfl

/-- **An array is parsed if its items are.** -/
theorem parses_readArray (h : Parses size Written.tokens item meaning) :
    Parses size Written.arrayTokens (readArray size item)
      fun items => (items.mapM meaning).map .array := by
  have hlist := (parses_readList (.inl rfl) Written.opens (fun before => h.map (· :: before))
    ([] : List Json)).map fun items => Json.array items.reverse
  refine (hlist.congr fun items => ?_).of_ok_iff fun bytes front => ?_
  · rw [foldlM_map, Option.map_map]
    congr 1
    funext values
    simp
  · rw [readArray_eq]

/-- Members are read as entries of a list, into a map. -/
theorem readMembers_eq (item : Reader Json) (rounds : Nat) (before : KeyMap Json)
    (bytes : List UInt8) :
    readMembers (readKey mode size) item rounds before bytes =
      readEntries 0x7D (fun members => readMemberWith mode size fun name bytes =>
        (item bytes).map fun (v, rest) => (members.insert name v, rest)) rounds before bytes := by
  induction rounds generalizing before bytes with
  | zero => rfl
  | succ rounds ih =>
    rw [readMembers, readEntries, readMemberWith]
    rcases readKey mode size bytes with fault | ⟨name, rest⟩
    · rfl
    dsimp only [bind, Except.bind]
    rcases readColon rest with fault | rest
    · rfl
    dsimp only
    rcases item rest with fault | ⟨v, rest⟩
    · rfl
    change _ = readAfter 0x7D (readEntries 0x7D _ rounds (before.insert name v)) _ rest
    rw [readAfter_brace]
    exact (funext₂ ih : readMembers _ item rounds = _) ▸ rfl

/-- An object is read as a list. -/
theorem readObject_eq (item : Reader Json) (bytes : List UInt8) : readObject mode size item bytes =
    (readList 0x7D (fun members => readMemberWith mode size fun name bytes =>
        (item bytes).map fun (v, rest) => (members.insert name v, rest))
      size .empty bytes).map fun (members, rest) => (.ofMap members, rest) := by
  unfold readObject readList
  dsimp only
  split
  · next heq =>
    rw [heq]
    rfl
  · next hnot =>
    have hhead : (skipSpaces bytes).head? ≠ some 0x7D := fun h => by
      obtain ⟨rest, heq⟩ := List.head?_eq_some_iff.1 h
      exact hnot rest heq
    rw [if_neg hhead, readMembers_eq]

/-- **An object is parsed if its values are.** -/
theorem parses_readObject (h : Parses size Written.tokens item meaning) :
    Parses size Written.objectTokens (readObject mode size item) fun members =>
      (members.mapM (Written.readMember? mode meaning)).map fun ms => .ofMap (.ofList ms) := by
  have hmember (members : KeyMap Json) : Parses size Written.memberTokens
      (readMemberWith mode size _) _ :=
    parses_readMemberWith fun name => h.map fun v => members.insert name v
  have hlist := (parses_readList (.inr rfl) Written.opens_member hmember KeyMap.empty).map Json.ofMap
  have hstep (members : KeyMap Json) (member : Quoted × Written) :
      ((member.1.read? mode).bind fun name => (meaning member.2).map fun v => members.insert name v) =
        (Written.readMember? mode meaning member).map fun e => members.insert e.1 e.2 := by
    rw [Written.readMember?, Option.map_bind]
    simp only [Option.map_map, Function.comp_def]
  refine (hlist.congr fun members => ?_).of_ok_iff fun bytes front => ?_
  · simp only [hstep]
    rw [foldlM_map, Option.map_map]
    rfl
  · rw [readObject_eq]

end

/-! ## Whole texts -/

/-- **A value is read for what it stands for**, if it does not nest deeper than there is room. -/
theorem parses_readValue (mode : Mode) (size room : Nat) :
    Parses size Written.tokens (readValue mode size room) fun w =>
      if w.nesting ≤ room then w.read? mode else none := by
  induction room with
  | zero =>
    refine (parses_readValueWith (.error _) (.error _)).congr fun w => ?_
    cases w with
    | word _ | string _ => rfl
    | array _ | object _ => rfl
  | succ room ih =>
    refine (parses_readValueWith (parses_readArray ih) (parses_readObject ih)).congr fun w => ?_
    cases w with
    | word _ | string _ => rfl
    | array items =>
      have hroom : (Written.array items).nesting ≤ room + 1 ↔ ∀ item ∈ items, item.nesting ≤ room :=
        Written.nesting_le_succ_iff
      rw [Written.byKind, mapM_guard, Written.read?_array]
      by_cases hitems : ∀ item ∈ items, item.nesting ≤ room
      · rw [if_pos hitems, if_pos (hroom.2 hitems)]
      · rw [if_neg hitems, if_neg fun h => hitems (hroom.1 h)]
        rfl
    | object members =>
      have hroom : (Written.object members).nesting ≤ room + 1 ↔
          ∀ member ∈ members, member.2.nesting ≤ room :=
        Written.nesting_le_succ_iff.trans List.forall_mem_map
      have hguard := funext (Written.readMember?_guard mode room)
      rw [Written.byKind, hguard, mapM_guard, Written.read?_object]
      by_cases hmembers : ∀ member ∈ members, member.2.nesting ≤ room
      · rw [if_pos hmembers, if_pos (hroom.2 hmembers)]
      · rw [if_neg hmembers, if_neg fun h => hmembers (hroom.1 h)]
        rfl

/-- There is always room in a text for the containers that it opens. -/
theorem parses_readValue_size (mode : Mode) (size : Nat) :
    Parses size Written.tokens (readValue mode size size) (Written.read? mode) where
  sound hread := by
    obtain ⟨w, used, hused, rfl, hmeaning⟩ := (parses_readValue mode size size).sound hread
    split at hmeaning
    · exact ⟨w, used, hused, rfl, hmeaning⟩
    · cases hmeaning
  complete hused hmeaning hsize hrest :=
    (parses_readValue mode size size).complete hused
      ((if_pos (Nat.le_trans (Written.nesting_le_of_spaced hused) hsize)).trans hmeaning) hsize hrest

/-- **A whole text is read for what the value stands for** that it is laid out as. -/
theorem readAll_eq_ok_iff {read : Reader β} {meaning : Written → Option β} {b : β}
    (h : Parses bytes.length Written.tokens read meaning) :
    readAll read bytes = .ok b ↔ ∃ w : Written, w.LaidOut bytes ∧ meaning w = some b := by
  constructor
  · intro hread
    rcases hfront : read bytes with fault | ⟨b', rest⟩
    · rw [readAll, hfront] at hread
      cases hread
    rw [readAll, hfront] at hread
    dsimp only [bind, Except.bind] at hread
    split at hread
    · next hspaces =>
      cases hread
      obtain ⟨w, used, hused, rfl, hmeaning⟩ := h.sound hfront
      have spaces : AllSpaces rest := List.dropWhile_eq_nil_iff.1 (List.isEmpty_iff.1 hspaces)
      exact ⟨w, ⟨used, rest, rfl, hused, spaces⟩, hmeaning⟩
    · cases hread
  · rintro ⟨w, ⟨used, gap, rfl, hused, spaces⟩, hmeaning⟩
    have hsize : used.length ≤ (used ++ gap).length := by simp
    have hspaces : (skipSpaces gap).isEmpty = true :=
      List.isEmpty_iff.2 (List.dropWhile_eq_nil_iff.2 spaces)
    rw [readAll, h.complete hused hmeaning hsize spaces.ends]
    simp only [bind, Except.bind, hspaces, if_true]

/-- **The tree of a text** is the one that the value stands for that it is laid out as. -/
theorem ofBytes_eq_ok_iff {v : Json} :
    ofBytes bytes = .ok v ↔ ∃ w : Written, w.LaidOut bytes ∧ w.read? .keep = some v :=
  readAll_eq_ok_iff (parses_readValue_size .keep bytes.length)

end Json

end DebugBridge

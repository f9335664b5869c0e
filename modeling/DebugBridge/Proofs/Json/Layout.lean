import DebugBridge.Json.Reader

/-!
# Proofs/Json/Layout — values as they are written

A text is more than the tree it stands for: it has the members of its objects in some order, its
numbers and strings in some spelling, and spaces between its tokens. `Written` keeps the order and
the spelling and leaves out the spaces; `Written.tokens` are the tokens in their order, and
`Written.LaidOut` says that a text has these tokens, with spaces anywhere between them.

```
  { "a" : [1,2e0] }   --tokens-->   {  "a"  :  [  1  ,  2e0  ]  }
```

Every token ends where it must: a string at its quote, and a word before the first byte that no word
has. So **a text is laid out in one way** (`Written.eq_of_laidOut`).
-/

namespace DebugBridge

namespace Json

/-! ## Tokens -/

/-- Whether a byte may stand in a keyword or a numeral: it is no space, no quote and no
punctuation. -/
def isBare (byte : UInt8) : Bool :=
  !isSpace byte && !([0x22, 0x2C, 0x3A, 0x5B, 0x5D, 0x7B, 0x7D] : List UInt8).contains byte

/-- A word, if there is one at the end of the text before, ends here. -/
def Ends (rest : List UInt8) : Prop :=
  ∀ byte ∈ rest.head?, isBare byte = false

/-- **The inside of a string**: it has no quote but after a backslash, and something stands after
every backslash. -/
inductive Inside : List UInt8 → Prop
  | nil : Inside []
  | plain {byte : UInt8} {rest : List UInt8} (hquote : byte ≠ 0x22) (hslash : byte ≠ 0x5C)
      (later : Inside rest) : Inside (byte :: rest)
  | escaped (byte : UInt8) {rest : List UInt8} (later : Inside rest) :
      Inside (0x5C :: byte :: rest)

/-- A keyword, a numeral, or what stands in the place of one. -/
structure Word where
  bytes : List UInt8
  ne_nil : bytes ≠ []
  bare : ∀ byte ∈ bytes, isBare byte = true

/-- A string between its quotes. -/
structure Quoted where
  inside : List UInt8
  isInside : Inside inside

namespace Quoted

def bytes (text : Quoted) : List UInt8 :=
  0x22 :: (text.inside ++ [0x22])

end Quoted

/-- **A value as it is written**, up to the spaces between its tokens. -/
inductive Written where
  | word (word : Word)
  | string (text : Quoted)
  | array (items : List Written)
  | object (members : List (Quoted × Written))

/-- What follows an entry of a container: a comma and the next entry, or the end. -/
def moreTokens (close : UInt8) : List (List (List UInt8)) → List (List UInt8)
  | [] => [[close]]
  | entry :: entries => [0x2C] :: (entry ++ moreTokens close entries)

/-- The entries of a container, with commas between them, up to the closing bracket. -/
def listTokens (close : UInt8) : List (List (List UInt8)) → List (List UInt8)
  | [] => [[close]]
  | entry :: entries => entry ++ moreTokens close entries

namespace Written

mutual

/-- **The tokens of a value**, in their order. -/
def tokens : Written → List (List UInt8)
  | .word w => [w.bytes]
  | .string text => [text.bytes]
  | .array items => [0x5B] :: listTokens 0x5D (itemsTokens items)
  | .object members => [0x7B] :: listTokens 0x7D (membersTokens members)
  termination_by structural w => w

/-- The tokens of each item of an array. -/
def itemsTokens : List Written → List (List (List UInt8))
  | [] => []
  | item :: items => item.tokens :: itemsTokens items
  termination_by structural items => items

/-- The tokens of each member of an object. -/
def membersTokens : List (Quoted × Written) → List (List (List UInt8))
  | [] => []
  | (key, value) :: members => (key.bytes :: [0x3A] :: value.tokens) :: membersTokens members
  termination_by structural members => members

end

/-- The tokens of one member. -/
def memberTokens (member : Quoted × Written) : List (List UInt8) :=
  member.1.bytes :: [0x3A] :: member.2.tokens

/-- The tokens of an array after its opening bracket. -/
def arrayTokens (items : List Written) : List (List UInt8) :=
  listTokens 0x5D (items.map tokens)

/-- The tokens of an object after its opening bracket. -/
def objectTokens (members : List (Quoted × Written)) : List (List UInt8) :=
  listTokens 0x7D (members.map memberTokens)

theorem itemsTokens_eq (items : List Written) : itemsTokens items = items.map tokens := by
  induction items with
  | nil => rfl
  | cons item items ih => rw [itemsTokens, ih, List.map_cons]

theorem membersTokens_eq (members : List (Quoted × Written)) :
    membersTokens members = members.map memberTokens := by
  induction members with
  | nil => rfl
  | cons member members ih => rw [membersTokens, ih, List.map_cons, memberTokens]

theorem tokens_array (items : List Written) :
    (array items).tokens = [0x5B] :: arrayTokens items := by
  rw [tokens, itemsTokens_eq, arrayTokens]

theorem tokens_object (members : List (Quoted × Written)) :
    (object members).tokens = [0x7B] :: objectTokens members := by
  rw [tokens, membersTokens_eq, objectTokens]

/-! ### Induction -/

/-- The values directly inside a value. -/
def children : Written → List Written
  | .array items => items
  | .object members => members.map (·.2)
  | _ => []

theorem sizeOf_lt_of_mem_children {v w : Written} (h : w ∈ v.children) : sizeOf w < sizeOf v := by
  cases v with
  | array items =>
    have := List.sizeOf_lt_of_mem (show w ∈ items from h)
    simp only [array.sizeOf_spec]
    omega
  | object members =>
    obtain ⟨m, hm, rfl⟩ := List.mem_map.1 (show w ∈ members.map (·.2) from h)
    have := List.sizeOf_lt_of_mem hm
    obtain ⟨key, value⟩ := m
    simp only [object.sizeOf_spec, Prod.mk.sizeOf_spec] at *
    omega
  | word _ | string _ => cases h

/-- **Induction over what is written**: a property of all children is passed on to their parent. -/
theorem inductionOn {P : Written → Prop} (h : ∀ w : Written, (∀ u ∈ w.children, P u) → P w)
    (w : Written) : P w :=
  h w fun u _ => inductionOn h u
  termination_by sizeOf w
  decreasing_by exact sizeOf_lt_of_mem_children ‹_›

end Written

/-! ## Spaces -/

def AllSpaces (gap : List UInt8) : Prop :=
  ∀ byte ∈ gap, isSpace byte = true

/-- **A text has these tokens**, one after the other, with spaces in front of any of them. -/
inductive Spaced : List (List UInt8) → List UInt8 → Prop
  | nil : Spaced [] []
  | cons {gap token rest : List UInt8} {tokens : List (List UInt8)} (spaces : AllSpaces gap)
      (later : Spaced tokens rest) : Spaced (token :: tokens) (gap ++ (token ++ rest))

/-- **A text is laid out as a value**: it has its tokens, with spaces between and around them. -/
def Written.LaidOut (w : Written) (bytes : List UInt8) : Prop :=
  ∃ used gap, bytes = used ++ gap ∧ Spaced w.tokens used ∧ AllSpaces gap

/-- Tokens with some gaps, the first of them in front of the first token. -/
def spread : (gaps tokens : List (List UInt8)) → List UInt8
  | _, [] => []
  | [], token :: tokens => token ++ spread [] tokens
  | gap :: gaps, token :: tokens => gap ++ (token ++ spread gaps tokens)

section

variable {token used rest gap more : List UInt8} {tokens others : List (List UInt8)}
  {first : UInt8}

theorem spaced_cons_iff : Spaced (token :: tokens) used ↔
    ∃ gap rest, AllSpaces gap ∧ Spaced tokens rest ∧ used = gap ++ (token ++ rest) := by
  constructor
  · rintro (_ | ⟨spaces, later⟩)
    exact ⟨_, _, spaces, later, rfl⟩
  · rintro ⟨gap, rest, spaces, later, rfl⟩
    exact .cons spaces later

theorem spaced_spread {gaps : List (List UInt8)} (spaces : ∀ gap ∈ gaps, AllSpaces gap)
    (tokens : List (List UInt8)) : Spaced tokens (spread gaps tokens) := by
  induction tokens generalizing gaps with
  | nil => cases gaps <;> exact .nil
  | cons token tokens ih =>
    cases gaps with
    | nil => exact .cons (List.forall_mem_nil _) (ih (List.forall_mem_nil _))
    | cons gap gaps =>
      obtain ⟨hgap, hgaps⟩ := List.forall_mem_cons.1 spaces
      exact .cons hgap (ih hgaps)

/-- **A value can be written with any gaps** between its tokens. -/
theorem Written.laidOut_spread (w : Written) {gaps : List (List UInt8)}
    (spaces : ∀ gap ∈ gaps, AllSpaces gap) : w.LaidOut (spread gaps w.tokens) :=
  ⟨_, [], (List.append_nil _).symm, spaced_spread spaces w.tokens, List.forall_mem_nil _⟩

theorem spaced_nil_iff : Spaced [] used ↔ used = [] := by
  constructor
  · rintro ⟨⟩
    rfl
  · rintro rfl
    exact .nil

theorem Spaced.append (h : Spaced tokens used) (later : Spaced others rest) :
    Spaced (tokens ++ others) (used ++ rest) := by
  induction h with
  | nil => exact later
  | cons spaces _ ih =>
    rw [List.append_assoc, List.append_assoc]
    exact .cons spaces ih

theorem spaced_append_iff : Spaced (tokens ++ others) used ↔
    ∃ before after, Spaced tokens before ∧ Spaced others after ∧ used = before ++ after := by
  constructor
  · intro h
    induction tokens generalizing used with
    | nil => exact ⟨[], used, .nil, h, rfl⟩
    | cons token tokens ih =>
      obtain ⟨gap, rest, spaces, later, rfl⟩ := spaced_cons_iff.1 h
      obtain ⟨before, after, hbefore, hafter, rfl⟩ := ih later
      exact ⟨_, after, .cons spaces hbefore, hafter, by simp⟩
  · rintro ⟨before, after, hbefore, hafter, rfl⟩
    exact hbefore.append hafter

theorem skipSpaces_gap (spaces : AllSpaces gap) (h : isSpace first = false)
    (more : List UInt8) : skipSpaces (gap ++ first :: more) = first :: more := by
  rw [skipSpaces, List.dropWhile_append_of_pos spaces, List.dropWhile_cons_of_neg (by simp [h])]

/-- What is left of a text without the spaces in front begins with no space. -/
theorem exists_gap (h : skipSpaces used = first :: more) :
    ∃ gap, AllSpaces gap ∧ isSpace first = false ∧ used = gap ++ first :: more := by
  induction used with
  | nil => cases h
  | cons byte used ih =>
    by_cases hbyte : isSpace byte = true
    · rw [skipSpaces, List.dropWhile_cons_of_pos hbyte] at h
      obtain ⟨gap, spaces, hfirst, rfl⟩ := ih h
      exact ⟨byte :: gap, List.forall_mem_cons.2 ⟨hbyte, spaces⟩, hfirst, rfl⟩
    · rw [skipSpaces, List.dropWhile_cons_of_neg hbyte] at h
      obtain ⟨rfl, rfl⟩ := List.cons.inj h
      exact ⟨[], List.forall_mem_nil _, by simpa using hbyte, rfl⟩

theorem isBare_of_isSpace (h : isSpace first = true) : isBare first = false := by
  simp [isBare, h]

theorem isSpace_of_isBare (h : isBare first = true) : isSpace first = false := by
  simp only [isBare, Bool.and_eq_true, Bool.not_eq_true'] at h
  exact h.1

theorem AllSpaces.ends (spaces : AllSpaces gap) : Ends gap := fun byte hbyte =>
  isBare_of_isSpace (spaces byte (List.mem_of_mem_head? hbyte))

/-- A word ends before a space as before a byte that no word has. -/
theorem ends_gap (spaces : AllSpaces gap) (h : isBare first = false) (more : List UInt8) :
    Ends (gap ++ first :: more) := by
  intro byte hbyte
  cases gap with
  | nil =>
    obtain rfl := Option.some.inj hbyte
    exact h
  | cons space gap =>
    obtain rfl := Option.some.inj hbyte
    exact isBare_of_isSpace (spaces _ List.mem_cons_self)

end

namespace Written

theorem spaced_array_iff {items : List Written} {used : List UInt8} :
    Spaced (array items).tokens used ↔ ∃ gap later, AllSpaces gap ∧
      Spaced (arrayTokens items) later ∧ used = gap ++ 0x5B :: later := by
  rw [tokens_array]
  exact spaced_cons_iff

theorem spaced_object_iff {members : List (Quoted × Written)} {used : List UInt8} :
    Spaced (object members).tokens used ↔ ∃ gap later, AllSpaces gap ∧
      Spaced (objectTokens members) later ∧ used = gap ++ 0x7B :: later := by
  rw [tokens_object]
  exact spaced_cons_iff

end Written

/-! ## What values begin with -/

/-- A token begins with a byte that is no space. -/
def Solid (token : List UInt8) : Prop :=
  ∃ first more, token = first :: more ∧ isSpace first = false

theorem solid_singleton {byte : UInt8} (h : isSpace byte = false) : Solid [byte] :=
  ⟨byte, [], rfl, h⟩

/-- Tokens begin with an entry of a container, and not with what follows one. -/
def Opens (tokens : List (List UInt8)) : Prop :=
  ∃ first more others, tokens = (first :: more) :: others ∧ isSpace first = false ∧
    first ∉ ([0x2C, 0x3A, 0x5D, 0x7D] : List UInt8)

theorem Opens.append {tokens : List (List UInt8)} (h : Opens tokens)
    (others : List (List UInt8)) : Opens (tokens ++ others) := by
  obtain ⟨first, more, tokens, rfl, hfirst⟩ := h
  exact ⟨first, more, tokens ++ others, rfl, hfirst⟩

/-- Spaces in front of tokens are as good as none. -/
theorem Opens.spaced_gap {tokens : List (List UInt8)} {gap used : List UInt8} (h : Opens tokens)
    (spaces : AllSpaces gap) (hused : Spaced tokens used) : Spaced tokens (gap ++ used) := by
  obtain ⟨first, more, tokens, rfl, -⟩ := h
  obtain ⟨before, later, hbefore, hlater, rfl⟩ := spaced_cons_iff.1 hused
  rw [← List.append_assoc]
  exact .cons (List.forall_mem_append.2 ⟨spaces, hbefore⟩) hlater

/-- Tokens without the spaces in front of them. -/
theorem Opens.exists_stripped {tokens : List (List UInt8)} {used : List UInt8} (h : Opens tokens)
    (hused : Spaced tokens used) : ∃ gap first more, AllSpaces gap ∧ used = gap ++ first :: more ∧
      Spaced tokens (first :: more) ∧ isSpace first = false ∧
        first ∉ ([0x2C, 0x3A, 0x5D, 0x7D] : List UInt8) := by
  obtain ⟨first, more, tokens, rfl, hspace, hfirst⟩ := h
  obtain ⟨gap, later, spaces, hlater, rfl⟩ := spaced_cons_iff.1 hused
  exact ⟨gap, first, more ++ later, spaces, rfl, .cons (List.forall_mem_nil _) hlater, hspace,
    hfirst⟩

theorem Word.solid (word : Word) : Solid word.bytes := by
  obtain ⟨first, more, heq⟩ := List.exists_cons_of_ne_nil word.ne_nil
  exact ⟨first, more, heq, isSpace_of_isBare (word.bare first (heq ▸ List.mem_cons_self))⟩

theorem Quoted.solid (text : Quoted) : Solid text.bytes :=
  ⟨0x22, _, rfl, rfl⟩

namespace Written

/-- The first byte of a value. -/
def first : Written → UInt8
  | .word w => w.bytes.head w.ne_nil
  | .string _ => 0x22
  | .array _ => 0x5B
  | .object _ => 0x7B

theorem isBare_first (w : Word) : isBare (word w).first = true :=
  w.bare _ (List.head_mem w.ne_nil)

theorem isSpace_first (w : Written) : isSpace w.first = false := by
  cases w with
  | word w => exact isSpace_of_isBare (isBare_first w)
  | string _ | array _ | object _ => rfl

/-- The first byte of a word is no quote and no bracket. -/
theorem first_word_ne (a : Word) {byte : UInt8} (h : isBare byte = false) :
    (word a).first ≠ byte := by
  rintro rfl
  rw [isBare_first] at h
  cases h

theorem first_not_mem (w : Written) : w.first ∉ ([0x2C, 0x3A, 0x5D, 0x7D] : List UInt8) := by
  cases w with
  | word a =>
    have hnone : ∀ byte ∈ ([0x2C, 0x3A, 0x5D, 0x7D] : List UInt8), ¬ isBare byte = true :=
      List.any_eq_false.mp (by decide)
    exact fun hmem => first_word_ne a (Bool.eq_false_iff.mpr (hnone _ hmem)) rfl
  | string _ | array _ | object _ =>
    rw [first]
    decide

theorem exists_tokens (w : Written) :
    ∃ more others, w.tokens = (w.first :: more) :: others := by
  cases w with
  | word w => exact ⟨w.bytes.tail, [], by rw [tokens, first, List.cons_head_tail]⟩
  | string text => exact ⟨text.inside ++ [0x22], [], rfl⟩
  | array items => exact ⟨[], _, tokens_array items⟩
  | object members => exact ⟨[], _, tokens_object members⟩

theorem opens (w : Written) : Opens w.tokens := by
  obtain ⟨more, others, heq⟩ := w.exists_tokens
  exact ⟨w.first, more, others, heq, w.isSpace_first, w.first_not_mem⟩

theorem opens_member (member : Quoted × Written) : Opens (memberTokens member) :=
  ⟨0x22, member.1.inside ++ [0x22], _, rfl, rfl, by decide⟩

end Written

/-! ## One layout for one text -/

section

variable {x y rest rest' : List UInt8}

/-- A string ends at its quote. -/
theorem Inside.unique {inside other : List UInt8} (h : Inside inside) (h' : Inside other)
    (heq : inside ++ 0x22 :: rest = other ++ 0x22 :: rest') : inside = other ∧ rest = rest' := by
  induction h generalizing other with
  | nil =>
    cases h' with
    | nil => exact ⟨rfl, (List.cons.inj heq).2⟩
    | plain hquote => exact absurd (List.cons.inj heq).1.symm hquote
    | escaped byte => exact absurd (List.cons.inj heq).1 (by decide)
  | plain hquote hslash _ ih =>
    cases h' with
    | nil => exact absurd (List.cons.inj heq).1 hquote
    | plain _ _ later =>
      obtain ⟨rfl, htail⟩ := List.cons.inj heq
      obtain ⟨rfl, hrest⟩ := ih later htail
      exact ⟨rfl, hrest⟩
    | escaped byte => exact absurd (List.cons.inj heq).1 hslash
  | escaped byte _ ih =>
    cases h' with
    | nil => exact absurd (List.cons.inj heq).1 (by decide)
    | plain _ hslash => exact absurd (List.cons.inj heq).1.symm hslash
    | escaped byte' later =>
      obtain ⟨rfl, htail⟩ := List.cons.inj (List.cons.inj heq).2
      obtain ⟨rfl, hrest⟩ := ih later htail
      exact ⟨rfl, hrest⟩

theorem Quoted.unique {text other : Quoted} (heq : text.bytes ++ rest = other.bytes ++ rest') :
    text = other ∧ rest = rest' := by
  obtain ⟨inside, hinside⟩ := text
  obtain ⟨inside', hinside'⟩ := other
  simp only [bytes, List.cons_append, List.append_assoc, List.cons.injEq, true_and,
    List.nil_append] at heq
  obtain ⟨rfl, hrest⟩ := hinside.unique hinside' heq
  exact ⟨rfl, hrest⟩

/-- A word goes on up to its end. -/
theorem Word.unique {word other : Word} (heq : word.bytes ++ rest = other.bytes ++ rest')
    (hrest : Ends rest) (hrest' : Ends rest') : word = other ∧ rest = rest' := by
  have htake {w : Word} {rest : List UInt8} (hends : Ends rest) :
      (w.bytes ++ rest).takeWhile isBare = w.bytes := by
    rw [List.takeWhile_append_of_pos w.bare]
    cases rest with
    | nil => simp
    | cons byte rest => simp [hends byte rfl]
  have hbytes : word.bytes = other.bytes := by rw [← htake hrest, heq, htake hrest']
  rw [hbytes] at heq
  cases word
  cases other
  obtain rfl := hbytes
  exact ⟨rfl, List.append_cancel_left heq⟩

/-- Texts that begin with the tokens of `a`, up to an end, begin with those of nothing else. -/
def Determined {α : Type} (tokens : α → List (List UInt8)) (a : α) : Prop :=
  ∀ {b : α} {x y rest rest' : List UInt8}, Spaced (tokens a) x → Spaced (tokens b) y →
    x ++ rest = y ++ rest' → Ends rest → Ends rest' → a = b ∧ rest = rest'

/-- A closing bracket or a closing brace. -/
def IsClose (byte : UInt8) : Prop := byte = 0x5D ∨ byte = 0x7D

theorem IsClose.facts {close : UInt8} (h : IsClose close) :
    isBare close = false ∧ isSpace close = false ∧ close ≠ 0x2C ∧
      close ∈ ([0x2C, 0x3A, 0x5D, 0x7D] : List UInt8) := by
  rcases h with rfl | rfl <;> decide

variable {α : Type} {tokens : α → List (List UInt8)} {close : UInt8} {as bs : List α}

theorem ends_moreTokens (hclose : IsClose close) {entries : List (List (List UInt8))}
    (h : Spaced (moreTokens close entries) x) (rest : List UInt8) : Ends (x ++ rest) := by
  cases entries with
  | nil =>
    obtain ⟨gap, later, spaces, -, rfl⟩ := spaced_cons_iff.1 h
    rw [List.append_assoc]
    exact ends_gap spaces hclose.facts.1 _
  | cons entry entries =>
    obtain ⟨gap, later, spaces, -, rfl⟩ := spaced_cons_iff.1 h
    rw [List.append_assoc]
    exact ends_gap spaces (by decide) _

/-- Texts that begin with tokens go on behind them. -/
theorem exists_behind {token token' : List UInt8} {tokens tokens' : List (List UInt8)}
    (hx : Spaced (token :: tokens) x) (hy : Spaced (token' :: tokens') y) (h : Solid token)
    (h' : Solid token') (heq : x ++ rest = y ++ rest') :
    ∃ x' y', Spaced tokens x' ∧ Spaced tokens' y' ∧
      token ++ (x' ++ rest) = token' ++ (y' ++ rest') := by
  obtain ⟨gap, x', spaces, hx', rfl⟩ := spaced_cons_iff.1 hx
  obtain ⟨gap', y', spaces', hy', rfl⟩ := spaced_cons_iff.1 hy
  obtain ⟨first, more, rfl, hfirst⟩ := h
  obtain ⟨first', more', rfl, hfirst'⟩ := h'
  refine ⟨x', y', hx', hy', ?_⟩
  have hskip := congrArg skipSpaces heq
  simp only [List.append_assoc, List.cons_append] at hskip
  rwa [skipSpaces_gap spaces hfirst, skipSpaces_gap spaces' hfirst'] at hskip

/-- Texts of one token go on behind it. -/
theorem behind_of_singleton {token token' : List UInt8} (hx : Spaced [token] x)
    (hy : Spaced [token'] y) (h : Solid token) (h' : Solid token') (heq : x ++ rest = y ++ rest') :
    token ++ rest = token' ++ rest' := by
  obtain ⟨x', y', hx', hy', hbehind⟩ := exists_behind hx hy h h' heq
  rwa [spaced_nil_iff.1 hx', spaced_nil_iff.1 hy'] at hbehind

/-- What follows an entry is a list of entries in one way. -/
theorem unique_moreTokens (hclose : IsClose close) (h : ∀ a ∈ as, Determined tokens a)
    (hx : Spaced (moreTokens close (as.map tokens)) x)
    (hy : Spaced (moreTokens close (bs.map tokens)) y) (heq : x ++ rest = y ++ rest') :
    as = bs ∧ rest = rest' := by
  obtain ⟨-, hspace, hne, -⟩ := hclose.facts
  have hend : Solid [close] := solid_singleton hspace
  have hcomma : Solid [0x2C] := solid_singleton rfl
  induction as generalizing bs x y rest rest' with
  | nil =>
    cases bs with
    | nil =>
      have hbehind := behind_of_singleton hx hy hend hend heq
      exact ⟨rfl, (List.cons.inj hbehind).2⟩
    | cons b bs =>
      obtain ⟨_, _, -, -, hbehind⟩ := exists_behind hx hy hend hcomma heq
      exact absurd (List.cons.inj hbehind).1 hne
  | cons a as ih =>
    cases bs with
    | nil =>
      obtain ⟨_, _, -, -, hbehind⟩ := exists_behind hx hy hcomma hend heq
      exact absurd (List.cons.inj hbehind).1.symm hne
    | cons b bs =>
      obtain ⟨x', y', hx', hy', hbehind⟩ := exists_behind hx hy hcomma hcomma heq
      obtain ⟨xa, xs, hxa, hxs, rfl⟩ := spaced_append_iff.1 hx'
      obtain ⟨yb, ys, hyb, hys, rfl⟩ := spaced_append_iff.1 hy'
      simp only [List.cons_append, List.cons.injEq, true_and, List.nil_append,
        List.append_assoc] at hbehind
      obtain ⟨rfl, hmore⟩ := h a List.mem_cons_self hxa hyb hbehind
        (ends_moreTokens hclose hxs rest) (ends_moreTokens hclose hys rest')
      obtain ⟨rfl, hrest⟩ := ih (fun a ha => h a (List.mem_cons_of_mem _ ha)) hxs hys hmore
      exact ⟨rfl, hrest⟩

/-- An entry and the end of a list are not the same. -/
theorem Opens.not_close {entry : List (List UInt8)} (h : Opens entry) (hclose : IsClose close)
    (hx : Spaced entry x) (hy : Spaced [[close]] y) (heq : x ++ rest = y ++ rest') : False := by
  obtain ⟨-, hspace, -, hmem⟩ := hclose.facts
  obtain ⟨gap, y', spaces, -, rfl⟩ := spaced_cons_iff.1 hy
  obtain ⟨gap', first, more, spaces', rfl, -, hspace', hfirst⟩ := h.exists_stripped hx
  have hskip := congrArg skipSpaces heq
  simp only [List.append_assoc, List.cons_append, List.nil_append] at hskip
  rw [skipSpaces_gap spaces' hspace', skipSpaces_gap spaces hspace] at hskip
  obtain rfl := (List.cons.inj hskip).1
  exact hfirst hmem

theorem unique_listTokens (hclose : IsClose close) (h : ∀ a ∈ as, Determined tokens a)
    (hopens : ∀ a, Opens (tokens a))
    (hx : Spaced (listTokens close (as.map tokens)) x)
    (hy : Spaced (listTokens close (bs.map tokens)) y) (heq : x ++ rest = y ++ rest') :
    as = bs ∧ rest = rest' := by
  cases as with
  | nil =>
    cases bs with
    | nil =>
      have hy' : Spaced (moreTokens close (([] : List α).map tokens)) y := hy
      exact unique_moreTokens hclose h hx hy' heq
    | cons b bs => exact (((hopens b).append _).not_close hclose hy hx heq.symm).elim
  | cons a as =>
    cases bs with
    | nil => exact (((hopens a).append _).not_close hclose hx hy heq).elim
    | cons b bs =>
      obtain ⟨xa, xs, hxa, hxs, rfl⟩ := spaced_append_iff.1 hx
      obtain ⟨yb, ys, hyb, hys, rfl⟩ := spaced_append_iff.1 hy
      simp only [List.append_assoc] at heq
      obtain ⟨rfl, hmore⟩ := h a List.mem_cons_self hxa hyb heq (ends_moreTokens hclose hxs rest)
        (ends_moreTokens hclose hys rest')
      obtain ⟨rfl, hrest⟩ :=
        unique_moreTokens hclose (fun a ha => h a (List.mem_cons_of_mem _ ha)) hxs hys hmore
      exact ⟨rfl, hrest⟩

end

namespace Written

theorem determined_member {member : Quoted × Written} (h : Determined tokens member.2) :
    Determined memberTokens member := by
  intro other x y rest rest' hx hy heq hrest hrest'
  have hcolon : Solid [0x3A] := solid_singleton rfl
  obtain ⟨x', y', hx', hy', hkeys⟩ := exists_behind hx hy member.1.solid other.1.solid heq
  obtain ⟨hkey, heq'⟩ := Quoted.unique hkeys
  obtain ⟨xvalue, yvalue, hxvalue, hyvalue, hvalues⟩ := exists_behind hx' hy' hcolon hcolon heq'
  obtain ⟨hvalue, hbehind⟩ := h hxvalue hyvalue (List.cons.inj hvalues).2 hrest hrest'
  exact ⟨Prod.ext hkey hvalue, hbehind⟩

theorem first_eq_of_append {v w : Written} {x y rest rest' : List UInt8} (hx : Spaced w.tokens x)
    (hy : Spaced v.tokens y) (heq : x ++ rest = y ++ rest') : w.first = v.first := by
  obtain ⟨more, others, hw⟩ := w.exists_tokens
  obtain ⟨more', others', hv⟩ := v.exists_tokens
  rw [hw] at hx
  rw [hv] at hy
  obtain ⟨_, _, -, -, hbehind⟩ :=
    exists_behind hx hy ⟨_, _, rfl, w.isSpace_first⟩ ⟨_, _, rfl, v.isSpace_first⟩ heq
  exact (List.cons.inj hbehind).1

/-- **What a text begins with, up to an end, is one value.** -/
theorem determined (w : Written) : Determined tokens w := by
  induction w using inductionOn with
  | h w ih =>
    intro v x y rest rest' hx hy heq hrest hrest'
    have hfirst := first_eq_of_append hx hy heq
    cases w with
    | word a =>
      cases v with
      | word b =>
        have hwords := behind_of_singleton hx hy a.solid b.solid heq
        obtain ⟨rfl, hbehind⟩ := Word.unique hwords hrest hrest'
        exact ⟨rfl, hbehind⟩
      | string _ | array _ | object _ => exact absurd hfirst (first_word_ne a rfl)
    | string a =>
      cases v with
      | string b =>
        have htexts := behind_of_singleton hx hy a.solid b.solid heq
        obtain ⟨rfl, hbehind⟩ := Quoted.unique htexts
        exact ⟨rfl, hbehind⟩
      | word b => exact absurd hfirst.symm (first_word_ne b rfl)
      | array _ | object _ => simp [first] at hfirst
    | array items =>
      cases v with
      | array others =>
        rw [tokens_array, arrayTokens] at hx hy
        obtain ⟨x', y', hx', hy', hlists⟩ :=
          exists_behind hx hy (solid_singleton rfl) (solid_singleton rfl) heq
        obtain ⟨rfl, hbehind⟩ := unique_listTokens (.inl rfl) ih opens hx' hy'
          (List.cons.inj hlists).2
        exact ⟨rfl, hbehind⟩
      | word b => exact absurd hfirst.symm (first_word_ne b rfl)
      | string _ | object _ => simp [first] at hfirst
    | object members =>
      cases v with
      | object others =>
        rw [tokens_object, objectTokens] at hx hy
        obtain ⟨x', y', hx', hy', hlists⟩ :=
          exists_behind hx hy (solid_singleton rfl) (solid_singleton rfl) heq
        have hmembers : ∀ m ∈ members, Determined memberTokens m := fun m hm =>
          determined_member (ih m.2 (List.mem_map_of_mem hm))
        obtain ⟨rfl, hbehind⟩ := unique_listTokens (.inr rfl) hmembers opens_member hx' hy'
          (List.cons.inj hlists).2
        exact ⟨rfl, hbehind⟩
      | word b => exact absurd hfirst.symm (first_word_ne b rfl)
      | string _ | array _ => simp [first] at hfirst

/-- **A text is laid out in one way.** -/
theorem eq_of_laidOut {v w : Written} {bytes : List UInt8} (hv : v.LaidOut bytes)
    (hw : w.LaidOut bytes) : v = w := by
  obtain ⟨x, gap, rfl, hx, spaces⟩ := hv
  obtain ⟨y, gap', heq, hy, spaces'⟩ := hw
  exact (v.determined hx hy heq spaces.ends spaces'.ends).1

end Written

end Json

end DebugBridge

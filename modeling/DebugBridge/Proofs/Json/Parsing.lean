import DebugBridge.Proofs.Json.Lexeme
import DebugBridge.Proofs.Json.Scanning

/-!
# Proofs/Json/Parsing — what a reader takes is what is written

A reader of values takes the tokens of a written value off the front of a text, wherever the spaces
stand, and gives what the value stands for; and it takes nothing else. `Parses` says both of a
reader and what its tokens mean, and is passed on from the parts of a reader to the whole: to the
entries of a container by induction on the rounds of its loop, and to values by induction on the
room.

```
  a text  --readAll-->  a tree
     \                    /
   laid out            stands for
        \               /
         a written value
```
-/

namespace DebugBridge

namespace Json

variable {α β γ σ : Type} {size : Nat} {bytes used rest gap : List UInt8}

/-! ## Readers of tokens -/

/-- **A reader takes the tokens of one `a` off the front of a text** for what they mean, and takes
nothing else. How much it may take is limited by `size`. -/
structure Parses (size : Nat) (tokens : α → List (List UInt8)) (read : Reader β)
    (meaning : α → Option β) : Prop where
  sound : ∀ {bytes b rest}, read bytes = .ok (b, rest) →
    ∃ a used, Spaced (tokens a) used ∧ bytes = used ++ rest ∧ meaning a = some b
  complete : ∀ {a b used rest}, Spaced (tokens a) used → meaning a = some b →
    used.length ≤ size → Ends rest → read (used ++ rest) = .ok (b, rest)

/-- What a reader takes may still be refused for its shape. -/
def readShaped (read : Reader α) (shape : α → Except ShapeFault β) : Reader β := fun bytes => do
  let (a, rest) ← read bytes
  match shape a with
  | .ok b => .ok (b, rest)
  | .error fault => .error (.shape fault)

namespace Parses

variable {tokens : α → List (List UInt8)} {read : Reader β} {meaning : α → Option β}

/-- The same reader parses for an equal meaning. -/
theorem congr (h : Parses size tokens read meaning) {meaning' : α → Option β}
    (heq : ∀ a, meaning a = meaning' a) : Parses size tokens read meaning' := by
  rwa [← funext heq]

/-- Only what a reader takes counts, not how it refuses the rest. -/
theorem of_ok_iff (h : Parses size tokens read meaning) {read' : Reader β}
    (hiff : ∀ bytes front, read' bytes = .ok front ↔ read bytes = .ok front) :
    Parses size tokens read' meaning where
  sound hread := h.sound ((hiff _ _).1 hread)
  complete hused hmeaning hsize hrest := (hiff _ _).2 (h.complete hused hmeaning hsize hrest)

/-- What was parsed may be changed, if its meaning is. -/
theorem map (h : Parses size tokens read meaning) (f : β → γ) :
    Parses size tokens (fun bytes => (read bytes).map fun (b, rest) => (f b, rest))
      fun a => (meaning a).map f where
  sound hread := by
    obtain ⟨b, hfirst, rfl⟩ := exists_of_map hread
    obtain ⟨a, used, hused, rfl, hmeaning⟩ := h.sound hfirst
    exact ⟨a, used, hused, rfl, by rw [hmeaning, Option.map_some]⟩
  complete hused hmeaning hsize hrest := by
    obtain ⟨b, hb, rfl⟩ := Option.map_eq_some_iff.1 hmeaning
    dsimp only
    rw [h.complete hused hb hsize hrest]
    rfl

/-- A reader that always fails parses what has no meaning. -/
theorem error (fault : TextFault) :
    Parses size tokens (fun _ => (.error fault : Except TextFault (Front β))) fun _ => none where
  sound hread := nomatch hread
  complete _ hmeaning := nomatch hmeaning

/-- What was parsed may be asked for a shape, if its meaning is. -/
theorem shaped (h : Parses size tokens read meaning) (shape : β → Except ShapeFault γ) :
    Parses size tokens (readShaped read shape)
      fun a => (meaning a).bind fun b => (shape b).toOption where
  sound {bytes c rest} hread := by
    unfold readShaped at hread
    rcases hfirst : read bytes with fault | ⟨b, mid⟩
    · rw [hfirst] at hread
      cases hread
    rw [hfirst] at hread
    dsimp only [Bind.bind, Except.bind] at hread
    split at hread
    · next hshape =>
      cases hread
      obtain ⟨a, used, hused, rfl, hmeaning⟩ := h.sound hfirst
      exact ⟨a, used, hused, rfl, by rw [hmeaning, Option.bind_some, hshape]; rfl⟩
    · cases hread
  complete {a c used rest} hused hmeaning hsize hrest := by
    obtain ⟨b, hb, hshape⟩ := Option.bind_eq_some_iff.1 hmeaning
    simp only [readShaped, h.complete hused hb hsize hrest, Bind.bind, Except.bind]
    cases hc : shape b with
    | error fault =>
      rw [hc] at hshape
      cases hshape
    | ok c' =>
      rw [hc] at hshape
      cases hshape
      rfl

/-- **Reading in two steps** is reading the tokens of both, if the second ones end a word. -/
theorem bind {α' : Type} (h : Parses size tokens read meaning) {tokens' : α' → List (List UInt8)}
    {next : β → Reader γ} {meaning' : β → α' → Option γ}
    (h' : ∀ b, Parses size tokens' (next b) (meaning' b))
    (hends : ∀ {a used}, Spaced (tokens' a) used → ∀ rest, Ends (used ++ rest)) :
    Parses size (fun p : α × α' => tokens p.1 ++ tokens' p.2)
      (fun bytes => do
        let (b, rest) ← read bytes
        next b rest) fun p => (meaning p.1).bind fun b => meaning' b p.2 where
  sound hread := by
    obtain ⟨b, mid, hfirst, hsecond⟩ := exists_of_bind hread
    obtain ⟨a, used, hused, rfl, hmeaning⟩ := h.sound hfirst
    obtain ⟨a', used', hused', rfl, hmeaning'⟩ := (h' b).sound hsecond
    refine ⟨(a, a'), used ++ used', hused.append hused', (List.append_assoc ..).symm, ?_⟩
    rw [hmeaning, Option.bind_some, hmeaning']
  complete {p c used rest} hused hmeaning hsize hrest := by
    obtain ⟨before, after, hbefore, hafter, rfl⟩ := spaced_append_iff.1 hused
    obtain ⟨b, hb, hc⟩ := Option.bind_eq_some_iff.1 hmeaning
    rw [List.length_append] at hsize
    simp only [List.append_assoc, h.complete hbefore hb (by omega) (hends hafter rest)]
    exact (h' b).complete hafter hc (by omega) hrest

end Parses

/-- What is left of a text without the spaces in front, and these spaces. -/
theorem exists_gap_append (bytes : List UInt8) :
    ∃ gap, AllSpaces gap ∧ bytes = gap ++ skipSpaces bytes :=
  ⟨bytes.takeWhile isSpace, fun _ hbyte => List.all_eq_true.1 List.all_takeWhile _ hbyte,
    List.takeWhile_append_dropWhile.symm⟩

/-! ## Keys and members -/

/-- A key is looked for behind blanks. -/
theorem readKey_gap {mode : Mode} (spaces : AllSpaces gap) (more : List UInt8) :
    readKey mode size (gap ++ 0x22 :: more) = readString mode size more := by
  rw [readKey, skipSpaces_gap spaces rfl]
  rfl

/-- **A key is parsed as a string.** -/
theorem parses_readKey (mode : Mode) (size : Nat) :
    Parses size (fun text : Quoted => [text.bytes]) (readKey mode size) (Quoted.read? mode) where
  sound {bytes name rest} hread := by
    unfold readKey at hread
    split at hread
    · cases hread
    · next more heq =>
      obtain ⟨gap, spaces, -, rfl⟩ := exists_gap heq
      obtain ⟨text, rfl, hname⟩ := Quoted.exists_of_readString hread
      exact ⟨text, _, .cons spaces .nil, by simp [Quoted.bytes], hname⟩
    · cases hread
  complete {text name used rest} hused hname hsize _ := by
    obtain ⟨gap, later, spaces, hlater, rfl⟩ := spaced_cons_iff.1 hused
    obtain rfl := spaced_nil_iff.1 hlater
    have hinside : text.inside.length < size := by
      simp only [Quoted.bytes, List.length_append, List.length_cons] at hsize
      omega
    simp only [Quoted.bytes, List.append_nil, List.append_assoc, List.cons_append, List.nil_append]
    rw [readKey_gap spaces]
    exact Quoted.readString_append hname hinside rest

/-- A colon is looked for behind blanks. -/
theorem readColon_gap (spaces : AllSpaces gap) (rest : List UInt8) :
    readColon (gap ++ 0x3A :: rest) = .ok rest := by
  rw [readColon, skipSpaces_gap spaces rfl]
  rfl

/-- Where a colon is read there is one, behind blanks. -/
theorem exists_of_readColon (h : readColon bytes = .ok rest) :
    ∃ gap, AllSpaces gap ∧ bytes = gap ++ 0x3A :: rest := by
  unfold readColon at h
  split at h
  · cases h
  · next heq =>
    cases h
    obtain ⟨gap, spaces, -, rfl⟩ := exists_gap heq
    exact ⟨gap, spaces, rfl⟩
  · cases h

/-- A colon stands before what is parsed after it. -/
theorem parses_readColon {tokens : α → List (List UInt8)} {next : Reader β}
    {meaning : α → Option β} (h : Parses size tokens next meaning) :
    Parses size (fun a => [0x3A] :: tokens a)
      (fun bytes => do
        let rest ← readColon bytes
        next rest) meaning where
  sound {bytes b rest} hread := by
    rcases hcolon : readColon bytes with fault | afterColon
    · rw [hcolon] at hread
      cases hread
    rw [hcolon] at hread
    obtain ⟨gap, spaces, rfl⟩ := exists_of_readColon hcolon
    obtain ⟨a, used, hused, rfl, hmeaning⟩ := h.sound hread
    exact ⟨a, _, .cons spaces hused, by simp, hmeaning⟩
  complete {a b used rest} hused hmeaning hsize hrest := by
    obtain ⟨gap, later, spaces, hlater, rfl⟩ := spaced_cons_iff.1 hused
    simp only [List.length_append] at hsize
    simp only [List.append_assoc, List.cons_append, List.nil_append, readColon_gap spaces]
    exact h.complete hlater hmeaning (by omega) hrest

/-- A key, the colon after it, and what follows them. -/
def readMemberWith (mode : Mode) (size : Nat) (next : String → Reader β) : Reader β := fun bytes => do
  let (name, rest) ← readKey mode size bytes
  let rest ← readColon rest
  next name rest

/-- **A member is parsed as its key and its value**, which may be read in the light of the key. -/
theorem parses_readMemberWith {mode : Mode} {next : String → Reader β}
    {meaning : String → Written → Option β}
    (h : ∀ name, Parses size Written.tokens (next name) (meaning name)) :
    Parses size Written.memberTokens (readMemberWith mode size next)
      fun member => (member.1.read? mode).bind fun name => meaning name member.2 :=
  (parses_readKey mode size).bind (fun name => parses_readColon (h name)) fun hused rest => by
    obtain ⟨gap, later, spaces, -, rfl⟩ := spaced_cons_iff.1 hused
    rw [List.append_assoc]
    exact ends_gap spaces (by decide) _

/-! ## Containers -/

/-- What follows an entry of a container: a comma and more, or the closing bracket. -/
def readAfter (close : UInt8) (more done : Reader β) : Reader β := fun bytes =>
  match skipSpaces bytes with
  | [] => .error .unfinished
  | first :: rest =>
    if first = 0x2C then more rest else if first = close then done rest else .error .malformed

/-- The closing bracket after `a`. -/
def readEnd (close : UInt8) (a : α) : Reader α := fun bytes =>
  match skipSpaces bytes with
  | [] => .error .unfinished
  | first :: rest => if first = close then .ok (a, rest) else .error .malformed

/-- One entry of a container or more, with commas between them, up to the closing bracket, on top of
a state. -/
def readEntries (close : UInt8) (entry : σ → Reader σ) : Nat → σ → Reader σ
  | 0, _, _ => .error .unfinished
  | rounds + 1, state, bytes => do
    let (state, rest) ← entry state bytes
    readAfter close (readEntries close entry rounds state) (fun rest => .ok (state, rest)) rest

/-- The entries of a container up to the closing bracket, of which there may be none. -/
def readList (close : UInt8) (entry : σ → Reader σ) (size : Nat) (start : σ) :
    Reader σ := fun bytes =>
  let stripped := skipSpaces bytes
  if stripped.head? = some close then .ok (start, stripped.tail)
  else readEntries close entry size start stripped

section

variable {close : UInt8} {more done : Reader β}

/-- After a comma there is more. -/
theorem readAfter_comma (spaces : AllSpaces gap) (rest : List UInt8) :
    readAfter close more done (gap ++ 0x2C :: rest) = more rest := by
  simp only [readAfter, skipSpaces_gap spaces (show isSpace 0x2C = false from rfl), if_true]

/-- After the closing bracket there is no more. -/
theorem readAfter_close (hclose : IsClose close) (spaces : AllSpaces gap) (rest : List UInt8) :
    readAfter close more done (gap ++ close :: rest) = done rest := by
  obtain ⟨-, hspace, hne, -⟩ := hclose.facts
  simp only [readAfter, skipSpaces_gap spaces hspace, if_neg hne, if_true]

/-- What is read after an entry begins with a comma or with the closing bracket, behind blanks. -/
theorem exists_of_readAfter {front : Front β} (h : readAfter close more done bytes = .ok front) :
    ∃ gap rest, AllSpaces gap ∧ ((bytes = gap ++ 0x2C :: rest ∧ more rest = .ok front) ∨
      (bytes = gap ++ close :: rest ∧ done rest = .ok front)) := by
  unfold readAfter at h
  split at h
  · cases h
  next first rest heq =>
  obtain ⟨gap, spaces, -, rfl⟩ := exists_gap heq
  split at h
  · next hcomma => exact ⟨gap, rest, spaces, .inl ⟨hcomma ▸ rfl, h⟩⟩
  · split at h
    · next hclose => exact ⟨gap, rest, spaces, .inr ⟨hclose ▸ rfl, h⟩⟩
    · cases h

/-- To change what is read after an entry is to change it in both cases. -/
theorem map_readAfter (f : Front β → Front γ) :
    (readAfter close more done bytes).map f =
      readAfter close (fun rest => (more rest).map f) (fun rest => (done rest).map f) bytes := by
  unfold readAfter
  split
  · rfl
  · split
    · rfl
    · split <;> rfl

/-- The end of a container is its closing bracket. -/
theorem parses_readEnd (hclose : IsClose close) (a : α) :
    Parses size (fun _ : Unit => [[close]]) (readEnd close a) fun _ => some a where
  sound {bytes b rest} hread := by
    unfold readEnd at hread
    split at hread
    · cases hread
    next first more heq =>
    obtain ⟨gap, spaces, -, rfl⟩ := exists_gap heq
    split at hread
    · next hend =>
      subst hend
      cases hread
      exact ⟨(), _, .cons spaces .nil, by simp, rfl⟩
    · cases hread
  complete hused hmeaning _ _ := by
    obtain ⟨gap, later, spaces, hlater, rfl⟩ := spaced_cons_iff.1 hused
    obtain rfl := spaced_nil_iff.1 hlater
    cases hmeaning
    simp only [List.append_assoc, List.cons_append, List.nil_append, readEnd,
      skipSpaces_gap spaces hclose.facts.2.1, if_true]

/-- The end of an object, by the first byte that is no blank. -/
theorem readEnd_brace {a : α} : readEnd 0x7D a bytes =
    match skipSpaces bytes with
    | [] => .error .unfinished
    | 0x7D :: rest => .ok (a, rest)
    | _ => .error .malformed := by
  unfold readEnd
  rcases skipSpaces bytes with _ | ⟨first, rest⟩
  · rfl
  by_cases hclose : first = 0x7D
  · subst hclose
    rfl
  · simp [hclose]

/-- What comes after an item, by the first byte that is no blank. -/
theorem readAfter_bracket : readAfter 0x5D more done bytes =
    match skipSpaces bytes with
    | [] => .error .unfinished
    | 0x2C :: rest => more rest
    | 0x5D :: rest => done rest
    | _ => .error .malformed := by
  unfold readAfter
  rcases skipSpaces bytes with _ | ⟨first, rest⟩
  · rfl
  by_cases hcomma : first = 0x2C
  · subst hcomma
    rfl
  by_cases hclose : first = 0x5D
  · subst hclose
    rfl
  · simp [hcomma, hclose]

/-- What comes after a member, by the first byte that is no blank. -/
theorem readAfter_brace : readAfter 0x7D more done bytes =
    match skipSpaces bytes with
    | [] => .error .unfinished
    | 0x2C :: rest => more rest
    | 0x7D :: rest => done rest
    | _ => .error .malformed := by
  unfold readAfter
  rcases skipSpaces bytes with _ | ⟨first, rest⟩
  · rfl
  by_cases hcomma : first = 0x2C
  · subst hcomma
    rfl
  by_cases hclose : first = 0x7D
  · subst hclose
    rfl
  · simp [hcomma, hclose]

end

section

variable {close : UInt8} {tokens : α → List (List UInt8)} {entry : σ → Reader σ}
  {sense : σ → α → Option σ} {state final : σ} {rounds : Nat}

/-- **What the loop of a container takes** are entries and the closing bracket. -/
theorem exists_of_readEntries (h : ∀ state, Parses size tokens (entry state) (sense state))
    (hread : readEntries close entry rounds state bytes = .ok (final, rest)) :
    ∃ a as used, Spaced (tokens a ++ moreTokens close (as.map tokens)) used ∧
      bytes = used ++ rest ∧ (a :: as).foldlM sense state = some final := by
  induction rounds generalizing state bytes with
  | zero => cases hread
  | succ rounds ih =>
    rw [readEntries] at hread
    rcases hentry : entry state bytes with fault | ⟨next, afterEntry⟩
    · rw [hentry] at hread
      cases hread
    rw [hentry] at hread
    obtain ⟨a, usedEntry, husedEntry, rfl, hsense⟩ := (h state).sound hentry
    obtain ⟨gap, behind, spaces, ⟨rfl, hmore⟩ | ⟨rfl, hdone⟩⟩ := exists_of_readAfter hread
    · obtain ⟨a', as, later, hlater, rfl, hsense'⟩ := ih hmore
      refine ⟨a, a' :: as, usedEntry ++ (gap ++ ([0x2C] ++ later)),
        husedEntry.append (.cons spaces hlater), by simp, ?_⟩
      rw [List.foldlM_cons, hsense]
      exact hsense'
    · cases hdone
      refine ⟨a, [], usedEntry ++ (gap ++ ([close] ++ [])),
        husedEntry.append (.cons spaces .nil), by simp, ?_⟩
      rw [List.foldlM_cons, hsense]
      rfl

/-- **The loop of a container takes any entries** up to the closing bracket, if it has as many
rounds as they have bytes. -/
theorem readEntries_append (hclose : IsClose close)
    (h : ∀ state, Parses size tokens (entry state) (sense state)) {a : α} {as : List α}
    (hused : Spaced (tokens a ++ moreTokens close (as.map tokens)) used)
    (hsense : (a :: as).foldlM sense state = some final) (hsize : used.length ≤ size)
    (hrounds : used.length ≤ rounds) (rest : List UInt8) :
    readEntries close entry rounds state (used ++ rest) = .ok (final, rest) := by
  induction as generalizing a used state rounds with
  | nil =>
    obtain ⟨usedEntry, after, husedEntry, hafter, rfl⟩ := spaced_append_iff.1 hused
    obtain ⟨gap, later, spaces, hlater, rfl⟩ := spaced_cons_iff.1 hafter
    obtain rfl := spaced_nil_iff.1 hlater
    simp only [List.length_append, List.length_cons] at hsize hrounds
    obtain ⟨rounds, rfl⟩ := Nat.exists_eq_succ_of_ne_zero (show rounds ≠ 0 by omega)
    obtain ⟨next, hnext, hfinal⟩ := Option.bind_eq_some_iff.1 hsense
    cases hfinal
    have hends : Ends (gap ++ close :: rest) := ends_gap spaces hclose.facts.1 rest
    have hentry := (h state).complete husedEntry hnext (by omega) hends
    simp only [List.append_assoc, List.cons_append, List.nil_append]
    rw [readEntries, hentry]
    exact readAfter_close hclose spaces rest
  | cons a' as ih =>
    obtain ⟨usedEntry, after, husedEntry, hafter, rfl⟩ := spaced_append_iff.1 hused
    obtain ⟨gap, later, spaces, hlater, rfl⟩ := spaced_cons_iff.1 hafter
    simp only [List.length_append, List.length_cons] at hsize hrounds
    obtain ⟨rounds, rfl⟩ := Nat.exists_eq_succ_of_ne_zero (show rounds ≠ 0 by omega)
    obtain ⟨next, hnext, hmore⟩ := Option.bind_eq_some_iff.1 hsense
    have hends : Ends (gap ++ 0x2C :: (later ++ rest)) := ends_gap spaces (by decide) _
    have hentry := (h state).complete husedEntry hnext (by omega) hends
    simp only [List.append_assoc, List.cons_append, List.nil_append]
    rw [readEntries, hentry]
    exact (readAfter_comma spaces _).trans (ih hlater hmore (by omega) (by omega))

/-- **The entries of a container are read as one list.** -/
theorem parses_readList (hclose : IsClose close) (hopens : ∀ a, Opens (tokens a))
    (h : ∀ state, Parses size tokens (entry state) (sense state)) (start : σ) :
    Parses size (fun as : List α => listTokens close (as.map tokens))
      (readList close entry size start) (fun as => as.foldlM sense start) where
  sound {bytes final rest} hread := by
    obtain ⟨gap, spaces, hbytes⟩ := exists_gap_append bytes
    unfold readList at hread
    dsimp only at hread
    split at hread
    · next hhead =>
      obtain ⟨more, heq⟩ := List.head?_eq_some_iff.1 hhead
      cases hread
      refine ⟨[], gap ++ ([close] ++ []), .cons spaces .nil, ?_, rfl⟩
      rw [heq] at hbytes ⊢
      simpa using hbytes
    · obtain ⟨a, as, used, hused, heq, hsense⟩ := exists_of_readEntries h hread
      refine ⟨a :: as, gap ++ used, ((hopens a).append _).spaced_gap spaces hused, ?_, hsense⟩
      rw [List.append_assoc, ← heq]
      exact hbytes
  complete {as final used rest} hused hsense hsize hrest := by
    obtain ⟨-, hspace, -, hmem⟩ := hclose.facts
    cases as with
    | nil =>
      obtain ⟨gap, later, spaces, hlater, rfl⟩ := spaced_cons_iff.1 hused
      obtain rfl := spaced_nil_iff.1 hlater
      cases hsense
      simp only [List.append_assoc, List.cons_append, List.nil_append, readList,
        skipSpaces_gap spaces hspace, List.head?_cons, if_true, List.tail_cons]
    | cons a as =>
      obtain ⟨gap, first, more, spaces, rfl, hmore, hfirst, hnot⟩ :=
        ((hopens a).append (moreTokens close (as.map tokens))).exists_stripped hused
      have hne : first ≠ close := fun heq => hnot (heq ▸ hmem)
      rw [List.length_append] at hsize
      simp only [List.append_assoc, List.cons_append, readList, skipSpaces_gap spaces hfirst,
        List.head?_cons, Option.some.injEq, if_neg hne]
      exact readEntries_append hclose h hmore hsense (by omega) (by omega) rest

end

end Json

end DebugBridge

import DebugBridge.Json.Record
import DebugBridge.Proofs.Json.Meaning

/-!
# Proofs/Json/Columns — records by what is written

What a record reads from a text is decided by the written value that stands there. A `Column` says
of one field what the field says of texts: what a written value puts into it, and whether it may be
left out at the end of an array. From the columns comes the meaning of a record in both of its
forms, as an object (`Column.putMember?`, member by member) and as an array (`Column.putItems?`,
column by column), and a record whose fields do as the columns say is read for that meaning
(`Record.parses_read`).
-/

namespace DebugBridge

namespace Json

variable {α σ ρ : Type} {size : Nat}

/-! ## Scalars and variants -/

namespace Written

/-- The scalar that a value stands for, in a shape. -/
def scalar? (shape : Json → Except ShapeFault α) (w : Written) : Option α :=
  (w.byKind (Word.read? .keep) (fun text => (text.read? .keep).map .string) (fun _ => none)
    fun _ => none).bind fun v => (shape v).toOption

/-- What an object names, with its only member. -/
def variantOfMembers? (variants : List (String × α)) : List (Quoted × Written) → Option α
  | [(key, value)] =>
    (key.read? .keep).bind fun name => (variants.lookup name).bind fun variant =>
      (value.scalar? (asNull "unit")).map fun _ => variant
  | _ => none

/-- The variant that a value names: with a string, or with the only key of an object. -/
def variant? (variants : List (String × α)) : Written → Option α :=
  byKind (fun _ => none) (fun text => (text.read? .keep).bind fun name => variants.lookup name)
    (fun _ => none) (variantOfMembers? variants)

end Written

theorem readScalar_eq (shape : Json → Except ShapeFault α) :
    readScalar size shape = readShaped (readShallow size) shape := rfl

/-- A scalar is read for its shape, if an array or object has none. -/
theorem parses_readScalar {shape : Json → Except ShapeFault α} {fault fault' : ShapeFault}
    (harray : shape (.array []) = .error fault) (hobject : shape (.object []) = .error fault') :
    Parses size Written.tokens (readScalar size shape) (Written.scalar? shape) := by
  have hvalue : Parses size Written.tokens
      (readValueWith .keep size (fun _ => .error .malformed) fun _ => .error .malformed)
      (Written.byKind (Word.read? .keep) (fun text => (text.read? .keep).map .string)
        (fun _ => none) fun _ => none) :=
    parses_readValueWith (.error .malformed) (.error .malformed)
  refine (hvalue.shaped shape).of_ok_iff fun bytes front => ?_
  rw [readScalar_eq]
  unfold readShaped readShallow
  rcases hskip : skipSpaces bytes with _ | ⟨first, more⟩
  · rw [readValueWith_nil hskip, readValueWith_nil hskip]
  rw [readValueWith_cons hskip, readValueWith_cons hskip]
  by_cases hquote : first = 0x22
  · simp only [if_pos hquote]
  by_cases hbracket : first = 0x5B
  · simp [hbracket, bind, Except.bind, harray]
  by_cases hbrace : first = 0x7B
  · simp [hbrace, bind, Except.bind, hobject]
  · simp only [if_neg hquote, if_neg hbracket, if_neg hbrace]

/-- The variant with a name, in the shape of a text. -/
def variantShape (variants : List (String × α)) (name : String) : Except ShapeFault α :=
  match variants.lookup name with
  | some variant => .ok variant
  | none => .error (.unknownVariant name (variants.map (·.1)))

theorem toOption_variantShape (variants : List (String × α)) (name : String) :
    (variantShape variants name).toOption = variants.lookup name := by
  unfold variantShape
  cases variants.lookup name <;> rfl

/-- The only member of an object that names a variant. -/
def readVariantMember (size : Nat) (variants : List (String × α)) : Reader α :=
  readMemberWith .keep size fun name bytes =>
    match variants.lookup name with
    | some variant => (readScalar size (asNull "unit") bytes).map fun (_, rest) => (variant, rest)
    | none => .error .malformed

variable {variants : List (String × α)} {bytes more : List UInt8}

theorem parses_readVariantMember : Parses size Written.memberTokens
    (readVariantMember size variants) fun member =>
      (member.1.read? .keep).bind fun name => (variants.lookup name).bind fun variant =>
        (member.2.scalar? (asNull "unit")).map fun _ => variant := by
  have hvalue (name : String) : Parses size Written.tokens
      (fun bytes =>
        match variants.lookup name with
        | some variant => (readScalar size (asNull "unit") bytes).map fun (_, rest) => (variant, rest)
        | none => .error .malformed)
      fun value => (variants.lookup name).bind fun variant =>
        (value.scalar? (asNull "unit")).map fun _ => variant := by
    cases variants.lookup name with
    | none => exact .error .malformed
    | some variant => exact (parses_readScalar rfl rfl).map fun _ => variant
  exact parses_readMemberWith hvalue

theorem readVariant_string (h : skipSpaces bytes = 0x22 :: more) :
    readVariant size variants bytes = (do
      let (name, rest) ← readKey .keep size bytes
      match variantShape variants name with
      | .ok variant => .ok (variant, rest)
      | .error fault => .error (.shape fault)) := by
  unfold readVariant readKey named variantShape
  rw [h]
  simp only [bind, Except.bind]
  rcases readString .keep size more with fault | ⟨name, rest⟩
  · rfl
  · dsimp only
    cases variants.lookup name <;> rfl

theorem readVariant_object (h : skipSpaces bytes = 0x7B :: more) {front : Front α} :
    readVariant size variants bytes = .ok front ↔ (do
      let (variant, rest) ← readVariantMember size variants more
      readEnd 0x7D variant rest) = .ok front := by
  unfold readVariant named readVariantMember readMemberWith
  rw [h]
  simp only [bind, Except.bind]
  rcases readKey .keep size more with fault | ⟨name, rest⟩
  · rfl
  dsimp only
  cases variants.lookup name with
  | none =>
    cases readColon rest <;> simp
  | some variant =>
    dsimp only
    cases readColon rest with
    | error fault => rfl
    | ok rest =>
      dsimp only
      cases readScalar size (asNull "unit") rest with
      | error fault => rfl
      | ok front =>
        dsimp only [Except.map]
        exact readEnd_brace (a := variant) ▸ Iff.rfl

theorem parses_readVariantObject : Parses size
    Written.objectTokens
    (fun bytes => do
      let (variant, rest) ← readVariantMember size variants bytes
      readEnd 0x7D variant rest) (Written.variantOfMembers? variants) := by
  have hends {used : List UInt8} (hused : Spaced [[0x7D]] used) (rest : List UInt8) :
      Ends (used ++ rest) := by
    obtain ⟨gap, later, spaces, -, rfl⟩ := spaced_cons_iff.1 hused
    rw [List.append_assoc]
    exact ends_gap spaces (by decide) _
  have hmember : Parses size Written.memberTokens (readVariantMember size variants) _ :=
    parses_readVariantMember
  have hboth := hmember.bind (fun variant => parses_readEnd (.inr rfl) variant) hends
  constructor
  · intro bytes variant rest hread
    obtain ⟨⟨member, ⟨⟩⟩, used, hused, rfl, hmeaning⟩ := hboth.sound hread
    exact ⟨[member], used, hused, rfl, (Option.bind_fun_some _).symm.trans hmeaning⟩
  · intro members variant used rest hused hmeaning hsize hrest
    unfold Written.variantOfMembers? at hmeaning
    split at hmeaning
    · next key value =>
      exact hboth.complete (a := ((key, value), ())) hused ((Option.bind_fun_some _).trans hmeaning)
        hsize hrest
    · cases hmeaning

theorem parses_readVariant (variants : List (String × α)) :
    Parses size Written.tokens (readVariant size variants) (Written.variant? variants) := by
  have hstring := (parses_readKey .keep size).shaped (variantShape variants)
  simp only [toOption_variantShape] at hstring
  refine (parses_readByFirst (.error .malformed) hstring (.error .malformed)
    parses_readVariantObject).of_ok_iff fun bytes front => ?_
  rcases hskip : skipSpaces bytes with _ | ⟨first, more⟩
  · have hnil : readVariant size variants bytes = .error .unfinished := by rw [readVariant, hskip]
    rw [hnil, readByFirst_nil hskip]
  · rw [readByFirst_cons hskip]
    by_cases hquote : first = 0x22
    · subst hquote
      rw [readVariant_string hskip]
      rfl
    by_cases hbrace : first = 0x7B
    · subst hbrace
      exact readVariant_object hskip
    · simp only [if_neg hquote, if_neg hbrace, ite_self]
      unfold readVariant
      rw [hskip]
      split
      · next heq => cases heq
      · next heq => exact absurd (List.cons.inj heq).1 hquote
      · next heq => exact absurd (List.cons.inj heq).1 hbrace
      · rfl

/-! ## Columns -/

/-- **One field of a record**, going by what is written. -/
structure Column (σ : Type) where
  name : String
  /-- Whether an array may end before this field. -/
  trailing : Bool
  /-- Whether the field has been given already. -/
  given : σ → Bool
  /-- The record so far with what a value puts into the field. -/
  put? : σ → Written → Option σ

/-- **A field of a record does as a column says.** -/
structure Field.Means (size : Nat) (field : Field σ) (column : Column σ) : Prop where
  name : field.name = column.name
  trailing : field.trailing = column.trailing
  given : field.given = column.given
  parses : ∀ state, Parses size Written.tokens (field.read state) (column.put? state)

namespace Column

/-- A column that is kept in an optional place. -/
def optional (name : String) (trailing : Bool) (get : σ → Option α) (set : α → σ → σ)
    (meaning : Written → Option α) : Column σ where
  name := name
  trailing := trailing
  given := fun state => (get state).isSome
  put? := fun state w => (meaning w).map fun value => set value state

/-- The record with the value of a column that was not given yet. -/
def add? (column : Column σ) (state : σ) (w : Written) : Option σ :=
  if column.given state then none else column.put? state w

/-- The record with a value under a name: that of a column that was not given yet, or anything under
another name. -/
def putNamed? (columns : List (Column σ)) (state : σ) (name : String) (w : Written) : Option σ :=
  match columns.find? (·.name == name) with
  | some column => column.add? state w
  | none => (w.read? .skip).map fun _ => state

/-- **The record with one more member.** -/
def putMember? (columns : List (Column σ)) (state : σ) (member : Quoted × Written) : Option σ :=
  (member.1.read? .keep).bind fun name => putNamed? columns state name member.2

/-- **The record with the items of an array**, of which those for the last columns may be
missing. -/
def putItems? : List (Column σ) → σ → List Written → Option σ
  | [], state, [] => some state
  | [], _, _ :: _ => none
  | column :: _, state, [] => if column.trailing then some state else none
  | column :: columns, state, item :: items =>
    (column.put? state item).bind fun state => putItems? columns state items

/-- **The record that is written**, in either form. -/
def putValue? (columns : List (Column σ)) (start : σ) : Written → Option σ :=
  Written.byKind (fun _ => none) (fun _ => none) (putItems? columns start)
    fun members => members.foldlM (putMember? columns) start

section

variable {P : σ → Prop} {columns : List (Column σ)}

/-- Members keep what columns keep. -/
theorem putMember?_keeps {member : Quoted × Written} (hput : ∀ column ∈ columns,
      ∀ state final, P state → column.put? state member.2 = some final → P final)
    {state final : σ} (hstate : P state) (h : putMember? columns state member = some final) :
    P final := by
  obtain ⟨name, -, hname⟩ := Option.bind_eq_some_iff.1 h
  unfold putNamed? at hname
  split at hname
  · next column hfind =>
    unfold add? at hname
    split at hname
    · cases hname
    · exact hput column (List.mem_of_find?_eq_some hfind) state final hstate hname
  · obtain ⟨_, -, rfl⟩ := Option.map_eq_some_iff.1 hname
    exact hstate

theorem putItems?_keeps {items : List Written} (hput : ∀ column ∈ columns, ∀ item ∈ items,
      ∀ state final, P state → column.put? state item = some final → P final)
    {state final : σ} (hstate : P state) (h : putItems? columns state items = some final) :
    P final := by
  induction columns generalizing items state with
  | nil =>
    cases items with
    | nil =>
      cases h
      exact hstate
    | cons _ _ => cases h
  | cons column columns ih =>
    cases items with
    | nil =>
      rw [putItems?] at h
      split at h
      · cases h
        exact hstate
      · cases h
    | cons item items =>
      obtain ⟨next, hnext, hmore⟩ := Option.bind_eq_some_iff.1 h
      have hfirst := hput column List.mem_cons_self item List.mem_cons_self state next hstate hnext
      exact ih (fun c hc i hi => hput c (List.mem_cons_of_mem _ hc) i (List.mem_cons_of_mem _ hi))
        hfirst hmore

/-- **What every column keeps is kept by the record**, in either form. -/
theorem putValue?_keeps {w : Written} (hput : ∀ column ∈ columns, ∀ u ∈ w.children,
      ∀ state final, P state → column.put? state u = some final → P final)
    {start final : σ} (hstart : P start) (h : putValue? columns start w = some final) :
    P final := by
  cases w with
  | word _ | string _ => cases h
  | array items => exact putItems?_keeps hput hstart h
  | object members =>
    have hmembers (member : Quoted × Written) (hmember : member ∈ members) (state final : σ)
        (hstate : P state) (hput' : putMember? columns state member = some final) : P final :=
      putMember?_keeps (fun column hcolumn =>
        hput column hcolumn member.2 (List.mem_map_of_mem hmember)) hstate hput'
    clear hput
    induction members generalizing start with
    | nil =>
      cases h
      exact hstart
    | cons member members ih =>
      obtain ⟨next, hnext, hmore⟩ := Option.bind_eq_some_iff.1 h
      exact ih (hmembers member List.mem_cons_self start next hstart hnext) hmore
        fun m hm => hmembers m (List.mem_cons_of_mem _ hm)

end

end Column

theorem Field.means_optional {name : String} {trailing : Bool} {get : σ → Option α} {set : α → σ → σ}
    {read : Reader α} {meaning : Written → Option α}
    (h : Parses size Written.tokens read meaning) :
    Field.Means size (.optional name trailing get set read)
      (.optional name trailing get set meaning) where
  name := rfl
  trailing := rfl
  given := rfl
  parses state := h.map fun value => set value state

namespace Record

variable {record : Record σ ρ} {fields : List (Field σ)} {columns : List (Column σ)}

/-! ## Objects -/

theorem rel_find? (h : List.Forall₂ (Field.Means size) fields columns) (name : String) :
    Option.Rel (Field.Means size) (fields.find? (·.name == name))
      (columns.find? (·.name == name)) := by
  induction h with
  | nil => exact .none
  | cons head _ ih =>
    rw [List.find?_cons, List.find?_cons, head.name]
    split
    · exact .some head
    · exact ih

/-- The value under a name: that of a field that was not given yet, or anything under another
name. -/
def readNamed (record : Record σ ρ) (size : Nat) (state : σ) (name : String) : Reader σ :=
  fun bytes =>
    match record.fields.find? (·.name == name) with
    | some field => if field.given state then .error .malformed else field.read state bytes
    | none => (readValue .skip size size bytes).map fun (_, rest) => (state, rest)

theorem parses_readNamed (h : List.Forall₂ (Field.Means size) record.fields columns) (state : σ)
    (name : String) : Parses size Written.tokens (record.readNamed size state name)
      (Column.putNamed? columns state name) := by
  have hfind := rel_find? h name
  unfold readNamed Column.putNamed?
  generalize record.fields.find? (·.name == name) = field? at hfind ⊢
  generalize columns.find? (·.name == name) = column? at hfind ⊢
  cases hfind with
  | none => exact (parses_readValue_size .skip size).map fun _ => state
  | some hmeans =>
    dsimp only [Column.add?]
    rw [hmeans.given]
    split
    · exact .error .malformed
    · exact hmeans.parses state

theorem parses_readMember (h : List.Forall₂ (Field.Means size) record.fields columns) (state : σ) :
    Parses size Written.memberTokens (record.readMember size state)
      (Column.putMember? columns state) := by
  refine (parses_readMemberWith (parses_readNamed h state)).of_ok_iff fun bytes front => ?_
  unfold readMember readMemberWith readNamed skipValue
  simp only [bind, Except.bind]
  rcases readKey .keep size bytes with fault | ⟨name, rest⟩
  · rfl
  dsimp only
  cases record.fields.find? (·.name == name) with
  | none =>
    dsimp only
    rcases readColon rest with fault | rest
    · rfl
    dsimp only
    rcases readValue .skip size size rest with fault | ⟨v, rest⟩ <;> rfl
  | some field =>
    dsimp only
    split
    · rcases readColon rest with fault | rest <;> simp
    · rfl

theorem readMembers_eq (rounds : Nat) (state : σ) (bytes : List UInt8) :
    record.readMembers size rounds state bytes =
      readEntries 0x7D (record.readMember size) rounds state bytes := by
  induction rounds generalizing state bytes with
  | zero => rfl
  | succ rounds ih =>
    rw [readMembers, readEntries]
    rcases record.readMember size state bytes with fault | ⟨next, rest⟩
    · rfl
    change _ = readAfter 0x7D (readEntries 0x7D _ rounds next) _ rest
    rw [readAfter_brace]
    simp only [← ih]
    rfl

theorem readObject_eq (bytes : List UInt8) : record.readObject size bytes =
    readList 0x7D (record.readMember size) size record.start bytes := by
  unfold readObject readList
  dsimp only
  split
  · next heq =>
    rw [heq]
    rfl
  · next hnot =>
    have hhead : (skipSpaces bytes).head? ≠ some 0x7D := fun h => by
      obtain ⟨rest, heq⟩ := List.head?_eq_some_iff.1 h
      exact hnot rest heq
    rw [if_neg hhead, readMembers_eq]

/-! ## Arrays -/

/-- One field of an array and those after it. -/
def readFieldThen (record : Record σ ρ) (index : Nat) (field : Field σ) (fields : List (Field σ))
    (state : σ) : Reader σ := fun bytes => do
  let (state, rest) ← field.read state bytes
  record.readFields (index + 1) fields state rest

/-- The end of an array before a field, if the array may end there. -/
def readTrailing (record : Record σ ρ) (index : Nat) (field : Field σ) (state : σ) : Reader σ :=
  fun rest =>
    if field.trailing then .ok (state, rest)
    else .error (.shape (.tooShort index record.name record.fields.length))

/-- What follows a comma in an array is no closing bracket. -/
def readNext (read : Reader σ) : Reader σ := fun bytes =>
  match skipSpaces bytes with
  | [] => .error .unfinished
  | 0x5D :: _ => .error .malformed
  | bytes => read bytes

theorem readFields_succ (index : Nat) (field : Field σ) (state : σ) (bytes : List UInt8) :
    record.readFields (index + 1) (field :: fields) state bytes =
      readAfter 0x5D (readNext (record.readFieldThen (index + 1) field fields state))
        (record.readTrailing (index + 1) field state) bytes := by
  rw [readFields.eq_def]
  unfold readAfter
  dsimp only
  rcases skipSpaces bytes with _ | ⟨first, rest⟩
  · rfl
  by_cases hcomma : first = 0x2C
  · subst hcomma
    rfl
  by_cases hclose : first = 0x5D
  · subst hclose
    rfl
  · simp [hcomma, hclose]

theorem readFields_zero (field : Field σ) (state : σ) {first : UInt8} {bytes more : List UInt8}
    (h : skipSpaces bytes = first :: more) : record.readFields 0 (field :: fields) state bytes =
      if first = 0x5D then record.readTrailing 0 field state more
      else record.readFieldThen 0 field fields state (first :: more) := by
  rw [readFields.eq_def]
  dsimp only
  rw [h]
  by_cases hclose : first = 0x5D
  · subst hclose
    rfl
  · simp [hclose, readFieldThen]

theorem readTrailing_eq_ok_iff {field : Field σ} {column : Column σ}
    (h : Field.Means size field column) {index : Nat} {state final : σ} {rest rest' : List UInt8} :
    record.readTrailing index field state rest = .ok (final, rest') ↔
      Column.putItems? (column :: columns) state [] = some final ∧ rest = rest' := by
  rw [readTrailing, Column.putItems?, h.trailing]
  split <;> simp

theorem readFields_nil (index : Nat) (state : σ) :
    record.readFields index [] state = readEnd 0x5D state := by
  funext bytes
  rw [readFields, readClose]
  unfold readEnd
  rcases skipSpaces bytes with _ | ⟨first, rest⟩
  · rfl
  by_cases hclose : first = 0x5D
  · subst hclose
    rfl
  · simp [hclose, Except.map]

theorem parses_noFields {tokens : List Written → List (List UInt8)} (h : tokens [] = [[0x5D]])
    (index : Nat) (state : σ) :
    Parses size tokens (record.readFields index [] state) (Column.putItems? [] state) := by
  have hend : Parses size (fun _ : Unit => [[0x5D]]) (readEnd 0x5D state) fun _ => some state :=
    parses_readEnd (.inl rfl) state
  rw [readFields_nil]
  constructor
  · intro bytes final rest hread
    obtain ⟨⟨⟩, used, hused, heq, hmeaning⟩ := hend.sound hread
    exact ⟨[], used, h ▸ hused, heq, hmeaning⟩
  · intro items final used rest hused hmeaning hsize hrest
    cases items with
    | nil =>
      rw [h] at hused
      exact hend.complete (a := ()) hused hmeaning hsize hrest
    | cons _ _ => cases hmeaning

theorem parses_readNext {tokens : α → List (List UInt8)} {read : Reader σ} {meaning : α → Option σ}
    (hopens : ∀ a, Opens (tokens a)) (h : Parses size tokens read meaning) :
    Parses size tokens (readNext read) meaning where
  sound {bytes state rest} hread := by
    obtain ⟨gap, spaces, hbytes⟩ := exists_gap_append bytes
    unfold readNext at hread
    split at hread
    · cases hread
    · cases hread
    · obtain ⟨a, used, hused, heq, hmeaning⟩ := h.sound hread
      refine ⟨a, gap ++ used, (hopens a).spaced_gap spaces hused, ?_, hmeaning⟩
      rw [List.append_assoc, ← heq]
      exact hbytes
  complete {a state used rest} hused hmeaning hsize hrest := by
    obtain ⟨gap, first, more, spaces, rfl, hmore, hfirst, hnot⟩ := (hopens a).exists_stripped hused
    rw [List.length_append] at hsize
    have hread := h.complete hmore hmeaning (by omega) hrest
    have hskip := skipSpaces_gap spaces hfirst (more ++ rest)
    simp only [List.append_assoc, List.cons_append, readNext, hskip]
    split
    · next heq => cases heq
    · next heq =>
      obtain ⟨rfl, -⟩ := List.cons.inj heq
      exact absurd (by decide) hnot
    · exact hread

theorem parses_readFieldThen (record : Record σ ρ) {field : Field σ} {column : Column σ}
    {index : Nat} (h : Field.Means size field column)
    (hfields : ∀ state, Parses size
      (fun items : List Written => moreTokens 0x5D (items.map Written.tokens))
      (record.readFields (index + 1) fields state) (Column.putItems? columns state)) (state : σ) :
    Parses size
      (fun p : Written × List Written => p.1.tokens ++ moreTokens 0x5D (p.2.map Written.tokens))
      (record.readFieldThen index field fields state)
      fun p => (column.put? state p.1).bind fun state => Column.putItems? columns state p.2 :=
  (h.parses state).bind hfields (ends_moreTokens (.inl rfl))

theorem parses_readFields_succ (record : Record σ ρ)
    (h : List.Forall₂ (Field.Means size) fields columns) (index : Nat) (state : σ) :
    Parses size (fun items : List Written => moreTokens 0x5D (items.map Written.tokens))
      (record.readFields (index + 1) fields state) (Column.putItems? columns state) := by
  induction h generalizing index state with
  | nil => exact parses_noFields rfl (index + 1) state
  | @cons field column fields columns head _ ih =>
    have hnext := parses_readNext (fun p => p.1.opens.append _)
      (parses_readFieldThen record head (ih (index + 1)) state)
    constructor
    · intro bytes final rest hread
      rw [readFields_succ] at hread
      obtain ⟨gap, behind, spaces, ⟨rfl, hmore⟩ | ⟨rfl, hdone⟩⟩ := exists_of_readAfter hread
      · obtain ⟨⟨item, items⟩, used, hused, rfl, hmeaning⟩ := hnext.sound hmore
        exact ⟨item :: items, gap ++ ([0x2C] ++ used), .cons spaces hused, by simp, hmeaning⟩
      · obtain ⟨hmeaning, rfl⟩ := (readTrailing_eq_ok_iff head).1 hdone
        exact ⟨[], gap ++ ([0x5D] ++ []), .cons spaces .nil, by simp, hmeaning⟩
    · intro items final used rest hused hmeaning hsize hrest
      rw [readFields_succ]
      cases items with
      | nil =>
        obtain ⟨gap, later, spaces, hlater, rfl⟩ := spaced_cons_iff.1 hused
        obtain rfl := spaced_nil_iff.1 hlater
        simp only [List.append_assoc, List.cons_append, List.nil_append]
        rw [readAfter_close (.inl rfl) spaces]
        exact (readTrailing_eq_ok_iff head).2 ⟨hmeaning, rfl⟩
      | cons item items =>
        obtain ⟨gap, later, spaces, hlater, rfl⟩ := spaced_cons_iff.1 hused
        simp only [List.length_append] at hsize
        simp only [List.append_assoc, List.cons_append, List.nil_append]
        rw [readAfter_comma spaces]
        exact hnext.complete (a := (item, items)) hlater hmeaning (by omega) hrest

theorem parses_readFields (record : Record σ ρ)
    (h : List.Forall₂ (Field.Means size) fields columns) (state : σ) :
    Parses size Written.arrayTokens (record.readFields 0 fields state)
      (Column.putItems? columns state) := by
  cases h with
  | nil => exact parses_noFields rfl 0 state
  | @cons field column fields columns head tail =>
    have hthen := parses_readFieldThen record head (parses_readFields_succ record tail 0) state
    constructor
    · intro bytes final rest hread
      rcases hskip : skipSpaces bytes with _ | ⟨first, more⟩
      · rw [readFields.eq_def] at hread
        dsimp only at hread
        rw [hskip] at hread
        cases hread
      rw [readFields_zero field state hskip] at hread
      obtain ⟨gap, spaces, -, rfl⟩ := exists_gap hskip
      split at hread
      · next hclose =>
        subst hclose
        obtain ⟨hmeaning, rfl⟩ := (readTrailing_eq_ok_iff head).1 hread
        exact ⟨[], gap ++ ([0x5D] ++ []), .cons spaces .nil, by simp, hmeaning⟩
      · obtain ⟨⟨item, items⟩, used, hused, heq, hmeaning⟩ := hthen.sound hread
        refine ⟨item :: items, gap ++ used, (item.opens.append _).spaced_gap spaces hused, ?_,
          hmeaning⟩
        rw [heq, List.append_assoc]
    · intro items final used rest hused hmeaning hsize hrest
      cases items with
      | nil =>
        obtain ⟨gap, later, spaces, hlater, rfl⟩ := spaced_cons_iff.1 hused
        obtain rfl := spaced_nil_iff.1 hlater
        have hskip := skipSpaces_gap spaces (show isSpace 0x5D = false from rfl) rest
        simp only [List.append_assoc, List.cons_append, List.nil_append]
        rw [readFields_zero field state hskip, if_pos rfl]
        exact (readTrailing_eq_ok_iff head).2 ⟨hmeaning, rfl⟩
      | cons item items =>
        obtain ⟨gap, first, more, spaces, rfl, hmore, hfirst, hnot⟩ :=
          (item.opens.append (moreTokens 0x5D (items.map Written.tokens))).exists_stripped hused
        have hne : first ≠ 0x5D := fun heq => hnot (by rw [heq]; decide)
        have hskip := skipSpaces_gap spaces hfirst (more ++ rest)
        rw [List.length_append] at hsize
        rw [List.append_assoc, List.cons_append, readFields_zero field state hskip, if_neg hne]
        exact hthen.complete (a := (item, items)) hmore hmeaning (by omega) hrest

/-! ## Either form -/

/-- The fields of a record in either form. -/
def readForm (record : Record σ ρ) (size : Nat) : Reader σ := fun bytes =>
  match skipSpaces bytes with
  | first :: rest =>
    if first = 0x5B then record.readFields 0 record.fields record.start rest
    else if first = 0x7B then record.readObject size rest
    else readScalar size (wrongType s!"struct {record.name}") (first :: rest)
  | [] => readScalar size (wrongType s!"struct {record.name}") []

theorem read_eq : record.read size = readShaped (record.readForm size) record.finish := by
  funext bytes
  unfold read readShaped readForm
  rcases skipSpaces bytes with _ | ⟨first, rest⟩
  · rfl
  by_cases hbracket : first = 0x5B
  · subst hbracket
    rfl
  by_cases hbrace : first = 0x7B
  · subst hbrace
    rfl
  simp only [if_neg hbracket, if_neg hbrace]
  split
  · next heq => exact absurd (List.cons.inj heq).1 hbracket
  · next heq => exact absurd (List.cons.inj heq).1 hbrace
  · rfl

theorem parses_readObject (h : List.Forall₂ (Field.Means size) record.fields columns) :
    Parses size Written.objectTokens (record.readObject size) fun members =>
      members.foldlM (Column.putMember? columns) record.start := by
  rw [funext readObject_eq]
  exact parses_readList (.inr rfl) Written.opens_member (parses_readMember h) record.start

theorem parses_readForm (h : List.Forall₂ (Field.Means size) record.fields columns) :
    Parses size Written.tokens (record.readForm size)
      (Column.putValue? columns record.start) := by
  have hscalar (bytes : List UInt8) (front : Front σ) :
      readScalar size (wrongType s!"struct {record.name}") bytes ≠ .ok front := by
    unfold readScalar
    rcases readShallow size bytes with fault | ⟨v, rest⟩ <;> exact nofun
  refine (parses_readByFirst (.error .malformed) (.error .malformed)
    (parses_readFields record h record.start) (parses_readObject h)).of_ok_iff fun bytes front => ?_
  rcases hskip : skipSpaces bytes with _ | ⟨first, more⟩
  · unfold readForm
    rw [hskip, readByFirst_nil hskip]
    exact iff_of_false (hscalar [] front) nofun
  · rw [readByFirst_cons hskip]
    by_cases hbracket : first = 0x5B
    · subst hbracket
      unfold readForm
      rw [hskip]
      rfl
    by_cases hbrace : first = 0x7B
    · subst hbrace
      unfold readForm
      rw [hskip]
      rfl
    · unfold readForm
      rw [hskip]
      simp only [if_neg hbracket, if_neg hbrace, ite_self]
      exact ⟨fun h => absurd h (hscalar _ front), nofun⟩

/-- **A record is read for what is written**, in either form. -/
theorem parses_read (h : List.Forall₂ (Field.Means size) record.fields columns) :
    Parses size Written.tokens (record.read size) fun w =>
      (Column.putValue? columns record.start w).bind fun state => (record.finish state).toOption := by
  rw [read_eq]
  exact (parses_readForm h).shaped record.finish

end Record

end Json

end DebugBridge

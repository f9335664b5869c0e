import DebugBridge.Json.Record
import DebugBridge.Proofs.Json.Reading

/-!
# Proofs/Json/Record — records are read as they were printed

A printed object is read as a record one member at a time: each member must be one of the fields and
not have been given before, and its field must read the value back. `Fills` puts the members
together, and `read_print` says that a record whose members fill it is read from their text.
-/

namespace DebugBridge

open Text (utf8)

namespace Json

/-! ## Values -/

/-- A printed text is read as the text. -/
theorem readScalar_asText (text : String) (size : Nat) :
    ReadsAs size (readScalar size asText) (.string text) text := by
  intro rest hrest hsize
  have hread := readValueWith_scalar (integral_string text) rfl (fun rest => .ok (.array [], rest))
    (fun rest => .ok (.object [], rest)) rest hrest hsize
  simp only [readScalar, readShallow, hread, bind, Except.bind, asText]

/-- A printed name is read as the variant of that name. -/
theorem readVariant_name {α : Type} {variants : List (String × α)} {name : String} {variant : α}
    (h : variants.lookup name = some variant) (size : Nat) :
    ReadsAs size (readVariant size variants) (.string name) variant := by
  intro rest _ hsize
  have hread := readString_printed hsize
  simp only [print, printString, List.cons_append, readVariant,
    skipSpaces_cons (show isSpace 0x22 = false from rfl), hread, bind, Except.bind, named, h]

namespace Record

variable {σ ρ : Type} {record : Record σ ρ} {size : Nat} {state state' : σ}

/-! ## Members -/

/-- The member is a field that was not given before, and its value is read into the state. -/
def ReadsMember (record : Record σ ρ) (size : Nat) (state : σ) (member : String × Json)
    (state' : σ) : Prop :=
  ∃ field, record.fields.find? (·.name == member.1) = some field ∧ field.given state = false ∧
    ReadsAs size (field.read state) member.2 state'

theorem readsMember_optional {α : Type} {key : String} {trailing : Bool} {get : σ → Option α}
    {set : α → σ → σ} {read : Reader α} {v : Json} {value : α}
    (field : record.fields.find? (·.name == key) = some (.optional key trailing get set read))
    (free : get state = none) (reads : ReadsAs size read v value) :
    record.ReadsMember size state (key, v) (set value state) := by
  refine ⟨_, field, by simp [Field.optional, free], fun rest hrest hsize => ?_⟩
  simp only [Field.optional, reads rest hrest hsize, Except.map]

/-- **Members that fill a record**, from one state of its fields to another. -/
inductive Fills (record : Record σ ρ) (size : Nat) : σ → List (String × Json) → σ → Prop
  | nil (state : σ) : Fills record size state [] state
  | cons {state state' state'' : σ} {member : String × Json} {members : List (String × Json)}
      (first : record.ReadsMember size state member state')
      (more : Fills record size state' members state'') :
      Fills record size state (member :: members) state''

theorem readMember_print {key : String} {v : Json} (h : record.ReadsMember size state (key, v) state')
    {rest : List UInt8} (hrest : Delimited rest)
    (hsize : (printKey key (v.print rest)).length ≤ size) :
    record.readMember size state (printKey key (v.print rest)) = .ok (state', rest) := by
  obtain ⟨field, hfind, hgiven, hread⟩ := h
  have hvalue : (v.print rest).length ≤ size :=
    Nat.le_trans (Nat.le_of_lt (length_printKey key (v.print rest))) hsize
  rw [readMember, readKey_print hsize]
  simp only [bind, Except.bind, hfind, hgiven, Bool.false_eq_true, if_false, readColon,
    skipSpaces_cons (show isSpace 0x3A = false from rfl)]
  exact hread rest hrest hvalue

theorem readMembers_print {key : String} {v : Json} {members : List (String × Json)}
    (h : record.Fills size state ((key, v) :: members) state') {rounds : Nat}
    (hrounds : members.length < rounds) {rest : List UInt8}
    (hsize : (printKey key (v.print (printMembers members (0x7D :: rest)))).length ≤ size) :
    record.readMembers size rounds state
        (printKey key (v.print (printMembers members (0x7D :: rest)))) = .ok (state', rest) := by
  induction members generalizing key v state rounds with
  | nil =>
    obtain ⟨rounds, rfl⟩ := Nat.exists_eq_succ_of_ne_zero (Nat.ne_of_gt hrounds)
    cases h with | cons hfirst hmore
    cases hmore
    rw [readMembers, readMember_print hfirst (delimited_printMembers [] rest) hsize]
    rfl
  | cons member members ih =>
    obtain ⟨key', w⟩ := member
    obtain ⟨rounds, rfl⟩ := Nat.exists_eq_succ_of_ne_zero (Nat.ne_of_gt (Nat.zero_lt_of_lt hrounds))
    cases h with | cons hfirst hmore
    have hkey := length_printKey key (v.print (printMembers ((key', w) :: members) (0x7D :: rest)))
    have hlength := length_lt_print v (printMembers ((key', w) :: members) (0x7D :: rest))
    have hafter : (printKey key' (w.print (printMembers members (0x7D :: rest)))).length ≤ size := by
      rw [printMembers, List.length_cons] at hlength
      rw [printMembers] at hkey hsize
      omega
    have hread := ih hmore (Nat.lt_of_succ_lt_succ hrounds) hafter
    rw [readMembers,
      readMember_print hfirst (delimited_printMembers ((key', w) :: members) rest) hsize]
    simp only [printMembers, bind, Except.bind, skipSpaces_cons (show isSpace 0x2C = false from rfl),
      hread]

/-- **A record is read from the text of members that fill it.** -/
theorem read_print {members : List (String × Json)} (hne : members ≠ [])
    (h : record.Fills size record.start members state) {result : ρ}
    (hfinish : record.finish state = .ok result) {rest : List UInt8}
    (hsize : ((object members).print rest).length ≤ size) :
    record.read size ((object members).print rest) = .ok (result, rest) := by
  obtain ⟨⟨key, v⟩, members, rfl⟩ := List.exists_cons_of_ne_nil hne
  have hkey := length_printKey key (v.print (printMembers members (0x7D :: rest)))
  have hlength := length_lt_print v (printMembers members (0x7D :: rest))
  have hlengths := length_printMembers members (0x7D :: rest)
  simp only [print, List.length_cons] at hsize hlengths
  have hread := readMembers_print h (show members.length < size by omega)
    (show (printKey key (v.print (printMembers members (0x7D :: rest)))).length ≤ size by omega)
  have hquote : skipSpaces (printKey key (v.print (printMembers members (0x7D :: rest)))) =
      printKey key (v.print (printMembers members (0x7D :: rest))) :=
    skipSpaces_cons rfl _
  have hobject : record.readObject size
      (printKey key (v.print (printMembers members (0x7D :: rest)))) = .ok (state, rest) := by
    rw [readObject, hquote]
    split
    · next heq => exact absurd (List.cons.inj heq).1 (by decide)
    · exact hread
  simp only [print, read, skipSpaces_cons (show isSpace 0x7B = false from rfl), hobject, bind,
    Except.bind, hfinish]

end Record

end Json

end DebugBridge

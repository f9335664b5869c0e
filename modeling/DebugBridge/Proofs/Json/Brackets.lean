import DebugBridge.Json.Brackets
import DebugBridge.Proofs.Json.StringText
import DebugBridge.Proofs.Number.Text

/-!
# Proofs/Json/Brackets — the brackets of a printed tree

A pass over a printed value comes out where it went in, outside of strings and as deep as before,
and the deepest it has been is as many brackets deeper as the value nests (`foldl_print`). Inside a
string the pass stays inside, because an escape never ends in a quote or a backslash of its own, and
no byte of a number is a bracket. So **the bracket depth of a text is the nesting of its tree**
(`bracketDepth_bytes`), whatever its strings hold.
-/

namespace DebugBridge

open Text (utf8)

namespace Json

namespace BracketScan

/-! ## Strings and other tokens -/

/-- Plain bytes outside strings change nothing. -/
theorem foldl_plain {bytes : List UInt8} (h : ∀ byte ∈ bytes, IsPlain byte) (depth deepest : Nat) :
    bytes.foldl step ⟨.outside, depth, deepest⟩ = ⟨.outside, depth, deepest⟩ := by
  induction bytes with
  | nil => rfl
  | cons byte bytes ih =>
    obtain ⟨hquote, hopen, hclose, hbrace, hend⟩ := h byte List.mem_cons_self
    rw [List.foldl_cons]
    simp only [step, beq_iff_eq, Bool.or_eq_true, hquote, hopen, hclose, hbrace, hend, or_self,
      if_false]
    exact ih fun b hb => h b (List.mem_cons_of_mem _ hb)

/-- Inside a string only a backslash and a quote change anything. -/
theorem step_inString {byte : UInt8} (hslash : byte ≠ 0x5C) (hquote : byte ≠ 0x22)
    (depth deepest : Nat) :
    step ⟨.inString, depth, deepest⟩ byte = ⟨.inString, depth, deepest⟩ := by
  simp [step, hslash, hquote]

/-- A hexadecimal digit inside a string changes nothing. -/
theorem step_digit {n : Nat} (h : n < 16) (depth deepest : Nat) :
    step ⟨.inString, depth, deepest⟩ (UInt8.ofNat (Hex.digit n).toNat) =
      ⟨.inString, depth, deepest⟩ := by
  have hdigit : ∀ m : Fin 16, UInt8.ofNat (Hex.digit m).toNat ≠ 0x5C ∧
      UInt8.ofNat (Hex.digit m).toNat ≠ 0x22 := by decide
  exact step_inString (hdigit ⟨n, h⟩).1 (hdigit ⟨n, h⟩).2 depth deepest

/-- An escaped byte does not end the string. -/
theorem foldl_escapeByte (byte : UInt8) (depth deepest : Nat) :
    (escapeByte byte).foldl step ⟨.inString, depth, deepest⟩ = ⟨.inString, depth, deepest⟩ := by
  have h := escaped_escapeByte byte
  generalize escapeByte byte = bytes at h
  cases h with
  | letter h => rfl
  | code h =>
    have hlt := byte.toNat_lt
    have hhigh := step_digit (show byte.toNat / 16 < 16 by omega) depth deepest
    have hlow := step_digit (show byte.toNat % 16 < 16 by omega) depth deepest
    have hcode : [0x5C, 0x75, 0x30, 0x30].foldl step ⟨.inString, depth, deepest⟩ =
        ⟨.inString, depth, deepest⟩ := rfl
    simp only [List.foldl_cons, List.foldl_nil] at hcode
    simp only [List.foldl_cons, List.foldl_nil, Hex.ofByte, List.map_cons, List.map_nil, hcode,
      hhigh, hlow]
  | plain hquote hslash h => exact step_inString hslash hquote depth deepest

/-- **A written string is of no matter to the scan**, whatever brackets it holds. -/
theorem foldl_printString (text : String) (rest : List UInt8) (depth deepest : Nat) :
    (printString text rest).foldl step ⟨.outside, depth, deepest⟩ =
      rest.foldl step ⟨.outside, depth, deepest⟩ := by
  have hinside (bytes : List UInt8) : (bytes.flatMap escapeByte).foldl step
      ⟨.inString, depth, deepest⟩ = ⟨.inString, depth, deepest⟩ := by
    induction bytes with
    | nil => rfl
    | cons byte bytes ih =>
      rw [List.flatMap_cons, List.foldl_append, foldl_escapeByte, ih]
  have hopen : step ⟨.outside, depth, deepest⟩ 0x22 = ⟨.inString, depth, deepest⟩ := rfl
  rw [printString, List.cons_append, List.foldl_cons, List.foldl_append, hopen, hinside]
  rfl

/-- A written key is of no matter to the scan. -/
theorem foldl_printKey (key : String) (rest : List UInt8) (depth deepest : Nat) :
    (printKey key rest).foldl step ⟨.outside, depth, deepest⟩ =
      rest.foldl step ⟨.outside, depth, deepest⟩ :=
  foldl_printString key _ depth deepest

/-! ## Values -/

mutual

/-- **A pass over a printed value** goes as many brackets deeper as the value nests. -/
theorem foldl_print (v : Json) (rest : List UInt8) {depth deepest : Nat} (h : depth ≤ deepest) :
    (v.print rest).foldl step ⟨.outside, depth, deepest⟩ =
      rest.foldl step ⟨.outside, depth, max deepest (depth + v.nesting)⟩ := by
  cases v with
  | null =>
    rw [print, List.foldl_append, foldl_plain (by decide +kernel), nesting, Nat.add_zero, Nat.max_eq_left h]
    all_goals exact nofun
  | bool value =>
    cases value
    all_goals
      rw [print, List.foldl_append, foldl_plain (by decide +kernel), nesting, Nat.add_zero,
        Nat.max_eq_left h]
      all_goals exact nofun
  | number n =>
    rw [print, List.foldl_append, foldl_plain n.isPlain_text, nesting, Nat.add_zero,
      Nat.max_eq_left h]
    all_goals exact nofun
  | string text =>
    rw [print, foldl_printString, nesting, Nat.add_zero, Nat.max_eq_left h]
    all_goals exact nofun
  | array items =>
    cases items with
    | nil => rfl
    | cons item items =>
      have hopen : step ⟨.outside, depth, deepest⟩ 0x5B =
          ⟨.outside, depth + 1, max deepest (depth + 1)⟩ := rfl
      have hdeepest : depth + 1 ≤ max deepest (depth + 1) := Nat.le_max_right ..
      have hitem := Nat.le_trans hdeepest (Nat.le_max_left _ (depth + 1 + item.nesting))
      have hclose (deepest : Nat) : step ⟨.outside, depth + 1, deepest⟩ 0x5D =
          ⟨.outside, depth, deepest⟩ := rfl
      rw [print, List.foldl_cons, hopen, foldl_print item _ hdeepest,
        foldl_printItems items _ hitem, List.foldl_cons, hclose]
      congr 2
      simp only [nesting, Json.deepest]
      omega
  | object members =>
    cases members with
    | nil => rfl
    | cons member members =>
      obtain ⟨key, v⟩ := member
      have hopen : step ⟨.outside, depth, deepest⟩ 0x7B =
          ⟨.outside, depth + 1, max deepest (depth + 1)⟩ := rfl
      have hdeepest : depth + 1 ≤ max deepest (depth + 1) := Nat.le_max_right ..
      have hvalue := Nat.le_trans hdeepest (Nat.le_max_left _ (depth + 1 + v.nesting))
      have hclose (deepest : Nat) : step ⟨.outside, depth + 1, deepest⟩ 0x7D =
          ⟨.outside, depth, deepest⟩ := rfl
      rw [print, List.foldl_cons, hopen, foldl_printKey, foldl_print v _ hdeepest,
        foldl_printMembers members _ hvalue, List.foldl_cons, hclose]
      congr 2
      simp only [nesting, deepestMember]
      omega

/-- Written items go as deep as the deepest of them. -/
theorem foldl_printItems (items : List Json) (rest : List UInt8) {depth deepest : Nat}
    (h : depth ≤ deepest) :
    (printItems items rest).foldl step ⟨.outside, depth, deepest⟩ =
      rest.foldl step ⟨.outside, depth, max deepest (depth + Json.deepest items)⟩ := by
  cases items with
  | nil => rw [printItems, Json.deepest, Nat.add_zero, Nat.max_eq_left h]
  | cons item items =>
    have hcomma : step ⟨.outside, depth, deepest⟩ 0x2C = ⟨.outside, depth, deepest⟩ := rfl
    have hdeepest : depth ≤ max deepest (depth + item.nesting) := Nat.le_trans h (Nat.le_max_left ..)
    rw [printItems, List.foldl_cons, hcomma, foldl_print item _ h, foldl_printItems items _ hdeepest,
      Json.deepest, Nat.max_assoc, ← Nat.add_max_add_left]

/-- Written members go as deep as the deepest of them. -/
theorem foldl_printMembers (members : List (String × Json)) (rest : List UInt8)
    {depth deepest : Nat} (h : depth ≤ deepest) :
    (printMembers members rest).foldl step ⟨.outside, depth, deepest⟩ =
      rest.foldl step ⟨.outside, depth, max deepest (depth + deepestMember members)⟩ := by
  cases members with
  | nil => rw [printMembers, deepestMember, Nat.add_zero, Nat.max_eq_left h]
  | cons member members =>
    obtain ⟨key, v⟩ := member
    have hcomma : step ⟨.outside, depth, deepest⟩ 0x2C = ⟨.outside, depth, deepest⟩ := rfl
    have hdeepest : depth ≤ max deepest (depth + v.nesting) := Nat.le_trans h (Nat.le_max_left ..)
    rw [printMembers, List.foldl_cons, hcomma, foldl_printKey, foldl_print v _ h,
      foldl_printMembers members _ hdeepest, deepestMember, Nat.max_assoc, ← Nat.add_max_add_left]

end

/-! ## Bounds -/

/-- A scan goes deeper by one at most with each byte. -/
theorem deepest_foldl_le (bytes : List UInt8) {scan : BracketScan} {n : Nat} (hdepth : scan.depth ≤ n)
    (hdeepest : scan.deepest ≤ n) : (bytes.foldl step scan).deepest ≤ n + bytes.length := by
  induction bytes generalizing scan n with
  | nil => exact hdeepest
  | cons byte bytes ih =>
    have hstep : (scan.step byte).depth ≤ n + 1 ∧ (scan.step byte).deepest ≤ n + 1 := by
      grind [step]
    have := ih hstep.1 hstep.2
    simp only [List.foldl_cons, List.length_cons]
    omega

end BracketScan

/-- A text has as many bytes as its brackets are deep, at least. -/
theorem bracketDepth_le_length (bytes : List UInt8) : bracketDepth bytes ≤ bytes.length := by
  have hstart : BracketScan.start.depth ≤ 0 ∧ BracketScan.start.deepest ≤ 0 := by decide
  have hbound := BracketScan.deepest_foldl_le bytes hstart.1 hstart.2
  rwa [Nat.zero_add] at hbound

/-- **The bracket depth of a text is the nesting of its tree.** -/
theorem bracketDepth_bytes (v : Json) : bracketDepth v.bytes = v.nesting := by
  rw [bracketDepth, bytes, BracketScan.start, BracketScan.foldl_print v [] (Nat.le_refl 0)]
  simp

end Json

end DebugBridge

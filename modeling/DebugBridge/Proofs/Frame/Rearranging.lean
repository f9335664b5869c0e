import Mathlib
import DebugBridge.Proofs.Frame.Written
import DebugBridge.Proofs.Json.Rearranging

/-!
# Proofs/Frame/Rearranging — frames do not depend on order and layout

A frame is accepted for what is written in it, wherever its spaces stand. What is written stands for
the same with the members of its objects in another order: those of the envelope go into different
fields, those of the content into a map, and those of a member that nobody asked for nowhere. So **a
frame whose members are put into another order is accepted for the same message**
(`Envelope.decode_rearranged`), if no object has a key twice. References are no exception, because
they are resolved in the tree, which has its members in one order anyway.
-/

namespace DebugBridge

open Json (Column Quoted Written)
open Text (utf8)

/-! ## One step -/

/-- A scalar has no members to put into another order. -/
theorem scalar?_reorders {α : Type} {shape : Json → Except ShapeFault α} {u v : Written}
    (step : u.Reorders v) : u.scalar? shape = none := by
  cases step <;> rfl

/-- A variant is named by one member at most. -/
theorem variant?_reorders {α : Type} {variants : List (String × α)} {u v : Written}
    (step : u.Reorders v) {variant : α} (h : u.variant? variants = some variant) :
    v.variant? variants = some variant := by
  cases step with
  | @here members others order =>
    have hmembers : Written.variantOfMembers? variants members = some variant := h
    unfold Written.variantOfMembers? at hmembers
    split at hmembers
    · rw [List.singleton_perm.1 order] at h
      exact h
    · cases hmembers
  | item _ => cases h
  | @member before after key u v step =>
    have hmembers : Written.variantOfMembers? variants (before ++ (key, u) :: after) =
      some variant := h
    unfold Written.variantOfMembers? at hmembers
    split at hmembers
    · next key' value heq =>
      obtain ⟨rfl, rfl⟩ : before = [] ∧ value = u := by
        cases before <;> simp_all
      simp [scalar?_reorders step] at hmembers
    · cases hmembers

theorem stable_envelopeColumns : ∀ column ∈ envelopeColumns, column.Stable := by
  have hscalar (u v : Written) (step : u.Reorders v) (_ : u.NoKeyTwice) (value : String)
      (h : u.scalar? Json.asText = some value) : v.scalar? Json.asText = some value := by
    rw [scalar?_reorders step] at h
    cases h
  simp only [envelopeColumns, List.forall_mem_cons]
  exact ⟨Column.stable_optional hscalar,
    Column.stable_optional fun u v step _ value h => variant?_reorders step h,
    Column.stable_optional hscalar,
    Column.stable_optional fun u v step hkeys value h => step.read?_eq_some hkeys h,
    List.forall_mem_nil _⟩

theorem independent_envelopeColumns :
    ∀ c ∈ envelopeColumns, ∀ d ∈ envelopeColumns, c.name ≠ d.name → c.Independent d := by
  have hpairwise : envelopeColumns.Pairwise Column.Independent := by
    simp only [envelopeColumns, List.pairwise_cons, List.forall_mem_cons]
    refine ⟨⟨?_, ?_, ?_, nofun⟩, ⟨?_, ?_, nofun⟩, ⟨?_, nofun⟩, nofun, .nil⟩
    all_goals exact Column.independent_optional (fun _ _ => rfl) (fun _ _ => rfl) fun _ _ _ => rfl
  have hsymm : Std.Symm fun c d : Column EnvelopeFields => c.Independent d :=
    ⟨fun _ _ => Column.Independent.symm⟩
  intro c hc d hd hne
  exact hpairwise.forall hc hd fun heq => hne (heq ▸ rfl)

/-- **A step leaves the envelope that is written as it is.** -/
theorem envelope?_reorders {s t : Written} (step : s.Reorders t) (hkeys : s.NoKeyTwice)
    {r : RequestId × MessageType × String × Json} (h : envelope? s = some r) :
    envelope? t = some r := by
  obtain ⟨fields, hfields, hmessage⟩ := Option.bind_eq_some_iff.1 h
  have hfields' := Column.putValue?_reorders stable_envelopeColumns independent_envelopeColumns
    step hkeys hfields
  exact Option.bind_eq_some_iff.2 ⟨fields, hfields', hmessage⟩

/-! ## Any number of steps -/

theorem rearranged {s t : Written} (h : s.Rearranged t) (hkeys : s.NoKeyTwice)
    {r : RequestId × MessageType × String × Json} (hs : envelope? s = some r) :
    t.nesting ≤ s.nesting ∧ envelope? t = some r := by
  suffices hall : t.nesting ≤ s.nesting ∧ t.NoKeyTwice ∧ envelope? t = some r from
    ⟨hall.1, hall.2.2⟩
  induction h with
  | refl => exact ⟨Nat.le_refl _, hkeys, hs⟩
  | tail _ step ih =>
    obtain ⟨hnesting, hkeys', hmid⟩ := ih
    exact ⟨Nat.le_trans step.nesting_le hnesting, step.noKeyTwice hkeys',
      envelope?_reorders step hkeys' hmid⟩

/-- **A frame does not depend on the order of members and on spaces.** -/
theorem Envelope.decode_rearranged {frame : List UInt8} {e : Envelope}
    (h : decode frame = .ok e) :
    (∃ s : Written, s.LaidOut frame) ∧
      ∀ (s t : Written) (other : List UInt8), s.LaidOut frame → s.NoKeyTwice →
        s.Rearranged t → t.LaidOut other → decode other = .ok e := by
  obtain ⟨w, content, hlaid, hnesting, hw, hcontent⟩ := decode_eq_ok_iff.1 h
  refine ⟨⟨w, hlaid⟩, fun s t other hs hkeys hrearranged ht => ?_⟩
  obtain rfl := Written.eq_of_laidOut hs hlaid
  obtain ⟨hle, henvelope⟩ := rearranged hrearranged hkeys hw
  exact decode_eq_ok_iff.2
    ⟨t, content, ht, Nat.le_trans hle hnesting, henvelope, hcontent⟩

/-- A text without quotes and backslashes, between quotes. -/
def plainText (text : String)
    (h : (utf8 text).all fun byte => byte ≠ 0x22 ∧ byte ≠ 0x5C) : Quoted where
  inside := utf8 text
  isInside := by
    replace h := List.all_eq_true.mp h
    simp only [decide_eq_true_eq] at h
    generalize utf8 text = bytes at h
    induction bytes with
    | nil => exact .nil
    | cons byte bytes ih =>
      obtain ⟨hbyte, hbytes⟩ := List.forall_mem_cons.1 h
      exact .plain hbyte.1 hbyte.2 (ih hbytes)

/-- The member `id` of a message. -/
def idMember : Quoted × Written :=
  (plainText "id" (by decide), .string (plainText "7" (by decide)))

/-- The member `messageType` of a request. -/
def typeMember : Quoted × Written :=
  (plainText "messageType" (by decide), .string (plainText "request" (by decide)))

/-- A container. -/
def namedMember : Quoted × Written :=
  (plainText "a" (by decide), .object [])

/-- A reference to the container. -/
def namingMember : Quoted × Written :=
  (plainText "b" (by decide),
    .object [(plainText "$ref" (by decide), .string (plainText "/a" (by decide)))])

/-- A request whose content names a container before the container comes. -/
def lookahead : Written :=
  .object [(plainText "content" (by decide), .object [namingMember, namedMember]), idMember,
    typeMember]

/-- The same request with the members in another order, and the container first. -/
def hindsight : Written :=
  .object [typeMember, (plainText "content" (by decide), .object [namedMember, namingMember]),
    idMember]

def lookaheadFrame : List UInt8 :=
  utf8 <| "\x7b\"content\":\x7b\"b\":\x7b\"$ref\":\"/a\"\x7d,\"a\":\x7b\x7d\x7d," ++
    "\"id\":\"7\",\"messageType\":\"request\"\x7d"

def hindsightFrame : List UInt8 :=
  utf8 <| "\n\x7b \"messageType\" : \"request\",\t\"content\":\x7b\"a\":\x7b \x7d , " ++
    "\"b\":\x7b\"$ref\":\"/a\"\x7d\x7d,\"id\":\"7\"\x7d"

/-- The message of both frames. -/
def linkedEnvelope : Envelope where
  id := "7"
  type := .request
  trigger := ""
  content := ⟨#[.object (.ofList [("a", .node 1), ("b", .node 1)]), .object .empty], .node 0⟩

/-- The gaps of `hindsightFrame`, up to the last one that is not empty. -/
def hindsightGaps : List (List UInt8) :=
  [[0x0A], [0x20], [0x20], [0x20], [], [0x09], [], [], [], [], [], [0x20], [0x20], [0x20]]

theorem noKeyTwice_lookahead : lookahead.NoKeyTwice := by
  have hcontent : (Written.object [namingMember, namedMember]).NoKeyTwice := by
    refine Written.noKeyTwice_object (by decide) ?_
    simp only [List.forall_mem_cons]
    refine ⟨Written.noKeyTwice_object (by decide) ?_,
      Written.noKeyTwice_object .nil (List.forall_mem_nil _), List.forall_mem_nil _⟩
    simp only [List.forall_mem_cons]
    exact ⟨Written.noKeyTwice_string _, List.forall_mem_nil _⟩
  refine Written.noKeyTwice_object (by decide) ?_
  simp only [List.forall_mem_cons]
  exact ⟨hcontent, Written.noKeyTwice_string _, Written.noKeyTwice_string _, List.forall_mem_nil _⟩

theorem rearranged_lookahead : lookahead.Rearranged hindsight := by
  have houter : lookahead.Reorders (.object [typeMember,
      (plainText "content" (by decide), .object [namingMember, namedMember]), idMember]) :=
    .here (.trans (.cons _ (.swap typeMember idMember [])) (.swap typeMember _ [idMember]))
  have hcontent : Written.Reorders (.object [namingMember, namedMember])
      (.object [namedMember, namingMember]) :=
    .here (.swap namedMember namingMember [])
  have hinner : Written.Reorders (.object ([typeMember] ++
      (plainText "content" (by decide), .object [namingMember, namedMember]) :: [idMember]))
      hindsight :=
    .member hcontent
  exact .tail (.single houter) hinner

theorem Envelope.decode_rearranged_hindsight : decode lookaheadFrame = .ok linkedEnvelope ∧
    (∃ s : Written, s.LaidOut lookaheadFrame) ∧ lookahead.LaidOut lookaheadFrame ∧
      lookahead.NoKeyTwice ∧ lookahead.Rearranged hindsight ∧ hindsight.LaidOut hindsightFrame ∧
        decode hindsightFrame = .ok linkedEnvelope := by
  have hframe : decode lookaheadFrame = .ok linkedEnvelope := by cbv
  have htext : Json.spread [] lookahead.tokens = lookaheadFrame := by cbv
  have htext' : Json.spread hindsightGaps hindsight.tokens = hindsightFrame := by cbv
  have hlaid : lookahead.LaidOut lookaheadFrame :=
    htext ▸ lookahead.laidOut_spread (List.forall_mem_nil _)
  have spaces : ∀ gap ∈ hindsightGaps, ∀ byte ∈ gap, Json.isSpace byte = true := by
    simp only [← List.all_eq_true]
    decide
  have hlaid' : hindsight.LaidOut hindsightFrame := htext' ▸ hindsight.laidOut_spread spaces
  obtain ⟨hexists, hall⟩ := decode_rearranged hframe
  exact ⟨hframe, hexists, hlaid, noKeyTwice_lookahead, rearranged_lookahead, hlaid',
    hall lookahead hindsight hindsightFrame hlaid noKeyTwice_lookahead rearranged_lookahead hlaid'⟩

end DebugBridge

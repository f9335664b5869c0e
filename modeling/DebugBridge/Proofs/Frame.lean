import DebugBridge.Frame
import DebugBridge.Proofs.Json.Brackets
import DebugBridge.Proofs.Json.Record
import DebugBridge.Proofs.Wire.RoundTrip
import DebugBridge.Proofs.Wire.Written

/-!
# Proofs/Frame — a frame is read as the message it was made of

A frame is the text of an object with four members, and each layer of it is read back by its own
part: the brackets are counted to be as deep as the content is written plus one (`nesting_members`),
the members fill the record of a message (`fills_members`), and the tree of the content is read as a
graph that corresponds to the written one. `decode_frame` puts the layers together: **what `encode`
makes of a message, `decode` takes for that message**, provided that no link dangles and that the
numbers are integers.
-/

namespace DebugBridge

open Json (Delimited Record)

namespace Envelope

/-- The members that a message is written as, around a content that is a tree already. -/
def members (e : Envelope) (content : Json) : List (String × Json) :=
  [("id", .string e.id), ("messageType", .string e.type.name), ("triggerType", .string e.trigger),
    ("content", content)]

theorem encode_eq_ok {e : Envelope} {frame : List UInt8} (h : e.encode = .ok frame) :
    ∃ content, e.content.encode = .ok content ∧
      frame = (Json.object (e.members content)).bytes := by
  unfold encode at h
  cases hcontent : e.content.encode with
  | error fault =>
    rw [hcontent] at h
    cases h
  | ok content =>
    rw [hcontent] at h
    cases h
    exact ⟨content, rfl, rfl⟩

theorem nesting_members (e : Envelope) (content : Json) :
    (Json.object (e.members content)).nesting = content.nesting + 1 := by
  simp [members, Json.nesting, Json.deepestMember]

/-- The members of a message fill the record that a frame is read as. -/
theorem fills_members (e : Envelope) {content : Json} (integral : content.Integral)
    (ordered : content.Ordered) {size : Nat} (hsize : content.nesting ≤ size) :
    (envelopeRecord size).Fills size (envelopeRecord size).start (e.members content)
      ⟨some e.id, some e.type, some e.trigger, some content⟩ := by
  have htype : MessageType.variants.lookup e.type.name = some e.type := by
    cases e.type <;> decide
  exact
    .cons (Record.readsMember_optional rfl rfl (Json.readScalar_asText e.id size)) <|
    .cons (Record.readsMember_optional rfl rfl (Json.readVariant_name htype size)) <|
    .cons (Record.readsMember_optional rfl rfl (Json.readScalar_asText e.trigger size)) <|
    .cons (Record.readsMember_optional rfl rfl (Json.readValue_print integral ordered hsize)) <|
    .nil _

/-- **The text of a message is read as the message**, up to what its content is read as. -/
theorem decode_members (e : Envelope) {content : Json} (integral : content.Integral)
    (ordered : content.Ordered) (hdepth : content.nesting ≤ Wire.maxDepth) :
    decode (Json.object (e.members content)).bytes =
      (Content.decode content).map fun c => { e with content := c } := by
  have hbrackets : Json.bracketDepth (Json.object (e.members content)).bytes =
      content.nesting + 1 := by
    rw [Json.bracketDepth_bytes, nesting_members]
  have hsize : content.nesting ≤ (Json.object (e.members content)).bytes.length := by
    have := Json.bracketDepth_le_length (Json.object (e.members content)).bytes
    omega
  have hread : (envelopeRecord (Json.object (e.members content)).bytes.length).read
      (Json.object (e.members content)).bytes.length (Json.object (e.members content)).bytes =
        .ok ((e.id, e.type, e.trigger, content), []) :=
    Record.read_print (by simp [members]) (fills_members e integral ordered hsize) rfl
      (Nat.le_refl _)
  have hend : (Json.skipSpaces []).isEmpty = true := rfl
  rw [decode, hbrackets, Nat.add_sub_cancel]
  simp only [Nat.not_lt.2 hdepth, Json.readAll, hread, hend, bind, Except.bind, if_true, if_false]
  cases Content.decode content <;> rfl

end Envelope

namespace Envelope

/-- **A frame is read as the message it was made of**: with the same id, type and trigger, whatever
characters they hold, and with an equal content. -/
theorem decode_frame {e : Envelope} (closed : e.content.Closed) (integral : e.content.Integral)
    {frame : List UInt8} (h : e.encode = .ok frame) :
    ∃ c, decode frame = .ok { e with content := c } ∧ c.same e.content = true ∧
      e.content.same c = true := by
  obtain ⟨content, hcontent, rfl⟩ := encode_eq_ok h
  obtain ⟨ordered, d, order, hd, hcorr⟩ :=
    Content.ordered_and_exists_correspondence closed hcontent
  refine ⟨d, ?_, Content.same_of_correspondence hcorr, Content.same_of_correspondence hcorr.symm⟩
  rw [decode_members e (Content.integral_of_encode integral hcontent) ordered
    (Content.nesting_le_of_encode hcontent), hd]
  rfl

/-- A message with quotes, backslashes, brackets, controls and far characters in every text, a key
of a reference, a shared node that holds itself, and the least and the greatest integer. -/
def riddle : Envelope where
  id := "\"[\\\x7b\x01é😀"
  type := .request
  trigger := "]\x7d\\\""
  content :=
    ⟨#[.object (.ofList [("$ref", .node 0), ("]\"\n/~", .node 1), ("[", .string "\\\x7d\t😀\x7f")]),
      .array [.number (.integer (-9223372036854775808) (by decide)), .node 1,
        .number (.integer 18446744073709551615 (by decide)), .node 1]], .node 0⟩

/-- The tree that the content of `riddle` is written as. -/
def riddleTree : Json :=
  .object [("$$ref", Wire.marker ""), ("[", .string "\\\x7d\t😀\x7f"),
    ("]\"\n/~", .array [.number (.integer (-9223372036854775808) (by decide)),
      Wire.marker "/]\"\n~1~0", .number (.integer 18446744073709551615 (by decide)),
      Wire.marker "/]\"\n~1~0"])]

theorem decode_frame_riddle : riddle.content.Closed ∧ riddle.content.Integral ∧
    riddle.encode = .ok (Json.object (riddle.members riddleTree)).bytes ∧
    ∃ c, decode (Json.object (riddle.members riddleTree)).bytes = .ok { riddle with content := c } ∧
      c.same riddle.content = true ∧ riddle.content.same c = true := by
  have closed : riddle.content.Closed := Content.closed_of_links (by decide) (by decide)
  have integral : riddle.content.Integral := Content.integral_of_slots (by decide) (by decide)
  have htree : riddle.content.encode = .ok riddleTree := by cbv
  have h : riddle.encode = .ok (Json.object (riddle.members riddleTree)).bytes := by
    simp only [encode, htree, bind, Except.bind]
    rfl
  exact ⟨closed, integral, h, decode_frame closed integral h⟩

end Envelope

end DebugBridge

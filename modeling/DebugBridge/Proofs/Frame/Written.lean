import DebugBridge.Frame
import DebugBridge.Proofs.Json.Columns

/-!
# Proofs/Frame/Written — frames by what is written

The record of an envelope has four columns. So a frame is accepted exactly if it is laid out as some
value, the value nests no deeper than it may, the columns take it for the fields of an envelope, and
its content is the tree of a graph (`Envelope.decode_eq_ok_iff`).
-/

namespace DebugBridge

open Json (Column Written)

/-- The columns of an envelope. -/
def envelopeColumns : List (Column EnvelopeFields) :=
  [.optional "id" false (·.id) (fun id fields => { fields with id := some id })
      (Written.scalar? Json.asText),
    .optional "messageType" false (·.type) (fun type fields => { fields with type := some type })
      (Written.variant? MessageType.variants),
    .optional "triggerType" true (·.trigger)
      (fun trigger fields => { fields with trigger := some trigger })
      (Written.scalar? Json.asText),
    .optional "content" true (·.content)
      (fun content fields => { fields with content := some content })
      (Written.read? .keep)]

/-- The fields of an envelope with its content as a tree, unless one is missing that must be
there. -/
def EnvelopeFields.message? (fields : EnvelopeFields) :
    Option (RequestId × MessageType × String × Json) :=
  match fields.id, fields.type with
  | some id, some type => some (id, type, fields.trigger.getD "", fields.content.getD .null)
  | _, _ => none

/-- **The envelope that is written**, with its content as a tree. -/
def envelope? (w : Written) : Option (RequestId × MessageType × String × Json) :=
  (Column.putValue? envelopeColumns ⟨none, none, none, none⟩ w).bind EnvelopeFields.message?

theorem means_envelopeColumns (size : Nat) :
    List.Forall₂ (Json.Field.Means size) (envelopeRecord size).fields envelopeColumns :=
  .cons (Json.Field.means_optional (Json.parses_readScalar rfl rfl)) <|
  .cons (Json.Field.means_optional (Json.parses_readVariant MessageType.variants)) <|
  .cons (Json.Field.means_optional (Json.parses_readScalar rfl rfl)) <|
  .cons (Json.Field.means_optional (Json.parses_readValue_size .keep size)) .nil

theorem toOption_finish (size : Nat) (fields : EnvelopeFields) :
    ((envelopeRecord size).finish fields).toOption = fields.message? := by
  obtain ⟨id, type, trigger, content⟩ := fields
  cases id with
  | none => rfl
  | some id => cases type <;> rfl

/-- **A frame holds the envelope that is written in it.** -/
theorem readAll_envelope {frame : List UInt8} {r : RequestId × MessageType × String × Json} :
    Json.readAll ((envelopeRecord frame.length).read frame.length) frame = .ok r ↔
      ∃ w : Written, w.LaidOut frame ∧ envelope? w = some r := by
  have hparses := Json.Record.parses_read (means_envelopeColumns frame.length)
  simp only [toOption_finish] at hparses
  exact Json.readAll_eq_ok_iff hparses

namespace Envelope

variable {frame : List UInt8} {e : Envelope}

/-- A frame is accepted if its brackets are, the envelope in it is read, and so is its content. -/
theorem decode_eq_ok_iff_readAll : decode frame = .ok e ↔
    Json.bracketDepth frame ≤ Wire.maxDepth + 1 ∧ ∃ content,
      Json.readAll ((envelopeRecord frame.length).read frame.length) frame =
        .ok (e.id, e.type, e.trigger, content) ∧ Content.decode content = .ok e.content := by
  unfold decode
  by_cases hdepth : Wire.maxDepth < Json.bracketDepth frame - 1
  · have hdeep : ¬ Json.bracketDepth frame ≤ Wire.maxDepth + 1 := by omega
    simp [hdepth, hdeep, bind, Except.bind, throw, throwThe, MonadExceptOf.throw]
  have hflat : Json.bracketDepth frame ≤ Wire.maxDepth + 1 := by omega
  simp only [if_neg hdepth, hflat, true_and]
  rcases Json.readAll ((envelopeRecord frame.length).read frame.length) frame with
    fault | ⟨id, type, trigger, content⟩
  · simp [throw, throwThe, MonadExceptOf.throw]
  · cases e
    cases hgraph : Content.decode content <;>
      simp [bind, Except.bind, pure, Except.pure, hgraph, and_assoc]

/-- **The frames that are accepted**, and what for. -/
theorem decode_eq_ok_iff : decode frame = .ok e ↔ ∃ (w : Written) (content : Json),
    w.LaidOut frame ∧ w.nesting ≤ Wire.maxDepth + 1 ∧
      envelope? w = some (e.id, e.type, e.trigger, content) ∧
        Content.decode content = .ok e.content := by
  rw [decode_eq_ok_iff_readAll]
  simp only [readAll_envelope]
  constructor
  · rintro ⟨hdepth, content, ⟨w, hlaid, hw⟩, hcontent⟩
    exact ⟨w, content, hlaid, hlaid.bracketDepth_eq ▸ hdepth, hw, hcontent⟩
  · rintro ⟨w, content, hlaid, hnesting, hw, hcontent⟩
    exact ⟨hlaid.bracketDepth_eq.symm ▸ hnesting, content, ⟨w, hlaid, hw⟩, hcontent⟩

end Envelope

end DebugBridge

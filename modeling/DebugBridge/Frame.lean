import DebugBridge.Envelope
import DebugBridge.Json.Brackets
import DebugBridge.Json.Printer
import DebugBridge.Json.Record
import DebugBridge.Wire.Decoding
import DebugBridge.Wire.Encoding

/-!
# Frame — messages as bytes

A frame is the text of one object with the members `id`, `messageType`, `triggerType` and `content`,
written in this order and read in any; the last two may be missing. The nesting of a frame is
measured before anything is read, so that a frame nesting too deep is refused whatever else it
holds; the object around the content counts as one level.
-/

namespace DebugBridge

open Json (Record)

/-- The members of an envelope that have been read. -/
structure EnvelopeFields where
  id : Option RequestId
  type : Option MessageType
  trigger : Option String
  content : Option Json

/-- The record that a frame holds: an envelope whose content is still a tree. -/
def envelopeRecord (size : Nat) :
    Record EnvelopeFields (RequestId × MessageType × String × Json) where
  name := "WireEnvelope"
  fields :=
    [.optional "id" false (·.id) (fun id fields => { fields with id := some id })
      (Json.readScalar size Json.asText),
      .optional "messageType" false (·.type) (fun type fields => { fields with type := some type })
      (Json.readVariant size MessageType.variants),
      .optional "triggerType" true (·.trigger)
      (fun trigger fields => { fields with trigger := some trigger })
      (Json.readScalar size Json.asText),
      .optional "content" true (·.content)
      (fun content fields => { fields with content := some content })
      (Json.readValue .keep size size)]
  start := ⟨none, none, none, none⟩
  finish := fun fields =>
    match fields.id, fields.type with
    | none, _ => .error (.missingField "id")
    | _, none => .error (.missingField "messageType")
    | some id, some type => .ok (id, type, fields.trigger.getD "", fields.content.getD .null)

namespace Envelope

/-- **The frame of a message.** -/
def encode (e : Envelope) : Except WireError (List UInt8) := do
  let content ← e.content.encode
  return (Json.object
    [("id", .string e.id), ("messageType", .string e.type.name),
      ("triggerType", .string e.trigger), ("content", content)]).bytes

/-- **The message of a frame.** -/
def decode (frame : List UInt8) : Except WireError Envelope := do
  let depth := Json.bracketDepth frame - 1
  if Wire.maxDepth < depth then
    throw (.tooDeep depth)
  match Json.readAll ((envelopeRecord frame.length).read frame.length) frame with
  | .error fault => throw (.text fault)
  | .ok (id, type, trigger, content) => return ⟨id, type, trigger, ← Content.decode content⟩

end Envelope

/-- A message that can be written, with its bytes. -/
structure Frame where
  envelope : Envelope
  bytes : List UInt8
  encode_eq : envelope.encode = .ok bytes
  deriving DecidableEq, Repr

/-- The frame of a message, if it can be written. -/
def Envelope.frame (e : Envelope) : Except WireError Frame :=
  match h : e.encode with
  | .ok bytes => .ok ⟨e, bytes, h⟩
  | .error fault => .error fault

theorem Frame.envelope_eq {e : Envelope} {frame : Frame} (h : e.frame = .ok frame) :
    frame.envelope = e := by
  unfold Envelope.frame at h
  split at h
  · cases h; rfl
  · cases h

end DebugBridge

import Mathlib
import DebugBridge.Proofs.Frame.Written

/-!
# Proofs/Frame/Depth — brackets measure nesting

The brackets of a text are counted before the text is read, so that a frame nesting too deep is
refused first. The count is right: for a printed tree it is the nesting of the tree, and for any
text, in whatever spelling, it is the nesting of what is written, of which the tree that is read may
lose a part, where a key is written twice, but which it never exceeds. The object or array of the
envelope takes one level, so the content of an accepted frame keeps the limit itself.
-/

namespace DebugBridge

open Json (Column Written)
open Text (utf8)

/-- What a column puts into an envelope is a content that nests no deeper than what is written, or
leaves the content as it is. -/
theorem content_of_put? {column : Column EnvelopeFields} (hcolumn : column ∈ envelopeColumns)
    {fields final : EnvelopeFields} {u : Written} (h : column.put? fields u = some final) :
    final.content = fields.content ∨ ∃ v, final.content = some v ∧ v.nesting ≤ u.nesting := by
  simp only [envelopeColumns, List.mem_cons, List.not_mem_nil, or_false] at hcolumn
  rcases hcolumn with rfl | rfl | rfl | rfl
  all_goals obtain ⟨v, hv, rfl⟩ := Option.map_eq_some_iff.1 h
  · exact .inl rfl
  · exact .inl rfl
  · exact .inl rfl
  · exact .inr ⟨v, rfl, Written.nesting_le_of_read? hv⟩

/-- The content of an envelope nests less deep than the value that the envelope is written as. -/
theorem nesting_lt_of_envelope? {w : Written} {id : RequestId} {type : MessageType}
    {trigger : String} {content : Json} (h : envelope? w = some (id, type, trigger, content)) :
    content.nesting < w.nesting := by
  obtain ⟨fields, hfields, hmessage⟩ := Option.bind_eq_some_iff.1 h
  have hpos : 0 < w.nesting := by
    cases w with
    | word _ | string _ => cases hfields
    | array _ | object _ => exact Nat.succ_pos _
  have hinside : ∀ v, fields.content = some v → v.nesting < w.nesting := by
    refine Column.putValue?_keeps (P := fun fields => ∀ v, fields.content = some v →
      v.nesting < w.nesting) (fun column hcolumn u hu state final hstate hput => ?_) nofun hfields
    intro v hv
    rcases content_of_put? hcolumn hput with heq | ⟨v', heq, hnesting⟩
    · exact hstate v (heq ▸ hv)
    · obtain rfl : v' = v := Option.some.inj (heq.symm.trans hv)
      exact Nat.lt_of_le_of_lt hnesting (Written.nesting_lt_of_mem_children hu)
  unfold EnvelopeFields.message? at hmessage
  split at hmessage
  · cases hmessage
    cases hcontent : fields.content with
    | none => exact hpos
    | some v => exact hinside v hcontent
  · cases hmessage

/-- **Brackets measure nesting**: the bracket depth of a printed tree is the nesting of the tree,
the tree of a text nests no deeper than the bracket depth of the text, and so the tree that the
content of an accepted frame is read from keeps the limit. -/
theorem bracketDepth_measures :
    (∀ v : Json, Json.bracketDepth v.bytes = v.nesting) ∧
    (∀ (bytes : List UInt8) (v : Json), Json.ofBytes bytes = .ok v →
      v.nesting ≤ Json.bracketDepth bytes) ∧
    ∀ (frame : List UInt8) (e : Envelope), Envelope.decode frame = .ok e →
      ∃ content : Json, Json.readAll ((envelopeRecord frame.length).read frame.length) frame =
          .ok (e.id, e.type, e.trigger, content) ∧
        content.nesting ≤ Wire.maxDepth ∧ Content.decode content = .ok e.content := by
  refine ⟨Json.bracketDepth_bytes, fun bytes v h => ?_, fun frame e h => ?_⟩
  · obtain ⟨w, hlaid, hv⟩ := Json.ofBytes_eq_ok_iff.1 h
    rw [hlaid.bracketDepth_eq]
    exact Written.nesting_le_of_read? hv
  · obtain ⟨w, content, hlaid, hnesting, hw, hcontent⟩ := Envelope.decode_eq_ok_iff.1 h
    have hlt := nesting_lt_of_envelope? hw
    exact ⟨content, readAll_envelope.2 ⟨w, hlaid, hw⟩, by omega, hcontent⟩

/-- A tree with brackets, quotes and backslashes in its key and its text. -/
def labyrinth : Json :=
  .object [("[\"\\", .array [.string "]\x7d\\\"", .object []])]

/-- The text of `labyrinth` with spaces, and with its first and last bracket as code units. -/
def labyrinthText : List UInt8 :=
  utf8 " \x7b \"\\u005b\\\"\\\\\" : [ \"]\\u007d\\\\\\\"\" ,\x7b \x7d] \x7d "

/-- A message around `labyrinthText`. -/
def labyrinthFrame : List UInt8 :=
  utf8 " \x7b\"content\": " ++ labyrinthText ++
    utf8 ", \"id\" :\"]\",\"messageType\":\"request\"\x7d "

/-- The message that `labyrinthFrame` holds. -/
def labyrinthEnvelope : Envelope where
  id := "]"
  type := .request
  trigger := ""
  content :=
    ⟨#[.object (.ofList [("[\"\\", .node 1)]), .array [.string "]\x7d\\\"", .node 2],
      .object .empty], .node 0⟩

theorem bracketDepth_measures_labyrinth :
    Json.bracketDepth labyrinth.bytes = labyrinth.nesting ∧
    (Json.ofBytes labyrinthText = .ok labyrinth ∧
      labyrinth.nesting ≤ Json.bracketDepth labyrinthText) ∧
    Envelope.decode labyrinthFrame = .ok labyrinthEnvelope ∧
    ∃ content : Json, Json.readAll
        ((envelopeRecord labyrinthFrame.length).read labyrinthFrame.length) labyrinthFrame =
          .ok (labyrinthEnvelope.id, labyrinthEnvelope.type, labyrinthEnvelope.trigger, content) ∧
      content.nesting ≤ Wire.maxDepth ∧ Content.decode content = .ok labyrinthEnvelope.content := by
  have htext : Json.ofBytes labyrinthText = .ok labyrinth := by cbv
  have hframe : Envelope.decode labyrinthFrame = .ok labyrinthEnvelope := by cbv
  exact ⟨bracketDepth_measures.1 labyrinth, ⟨htext, bracketDepth_measures.2.1 _ _ htext⟩, hframe,
    bracketDepth_measures.2.2 _ _ hframe⟩

end DebugBridge

import DebugBridge.Proofs.Content.Setting
import DebugBridge.Proofs.Wire.Writing
import DebugBridge.Session.Handling

/-!
# Session/Replies — every reply can be written

The replies of a session are **flat**: objects whose members are scalars. Whatever texts they hold,
flat contents can be written (`Flat.exists_encode`), so a reply is sent unless the link takes no
frames any more (`send_flat`).
-/

namespace DebugBridge

namespace Content

/-- An object whose members are scalars, and nothing else. -/
def Flat (c : Content) : Prop :=
  ∃ members : KeyMap Item, c = ⟨#[.object members], .node 0⟩ ∧
    ∀ key value, members.get? key = some value → value.IsScalar

theorem flat_object : object.Flat :=
  ⟨.empty, rfl, fun key value h => by simp at h⟩

/-- Setting a member to a scalar keeps an object flat. -/
theorem Flat.set {c : Content} (h : c.Flat) (key : String) {value : Json} {x : Item}
    (hadd : ∀ nodes, addTree value nodes = (nodes, x)) (hx : x.IsScalar) :
    (c.set key value).Flat := by
  obtain ⟨members, rfl, hmembers⟩ := h
  refine ⟨members.insert key x, ?_, fun k v hv => ?_⟩
  · rw [Content.set, add, hadd]
    rfl
  · rw [KeyMap.get?_insert] at hv
    split at hv
    · exact Option.some.inj hv ▸ hx
    · exact hmembers k v hv

theorem Flat.set_string {c : Content} (h : c.Flat) (key text : String) :
    (c.set key (.string text)).Flat :=
  h.set key (x := .string text) (fun nodes => by rw [addTree]) (by rintro id ⟨⟩)

theorem Flat.set_null {c : Content} (h : c.Flat) (key : String) : (c.set key .null).Flat :=
  h.set key (x := .null) (fun nodes => by rw [addTree]) (by rintro id ⟨⟩)

open Wire

/-- Scalars are written whatever room is left. -/
theorem encodeSlots_scalars (c : Content) (limit room : Nat) {slots : List (String × Item)}
    (h : ∀ slot ∈ slots, slot.2.IsScalar) (seen : Seen) :
    encodeSlots (encodeItem c limit room) slots seen =
      .ok (slots.map fun slot => scalarValue slot.2, seen) := by
  induction slots with
  | nil => rfl
  | cons slot rest ih =>
    obtain ⟨hslot, hrest⟩ := List.forall_mem_cons.1 h
    rw [encodeSlots, encodeItem_scalar hslot]
    simp only [bind, Except.bind]
    rw [ih hrest]
    rfl

/-- **A flat content can be written.** -/
theorem Flat.exists_encode {c : Content} (h : c.Flat) : ∃ value, c.encode = .ok value := by
  obtain ⟨members, rfl, hmembers⟩ := h
  have hslots : ∀ slot ∈ slotPlaces "" (.object members), slot.2.IsScalar := by
    intro slot hslot
    have hmem : slot.2 ∈ members.values := by
      rw [← Node.items, ← map_snd_slotPlaces ""]
      exact List.mem_map_of_mem hslot
    obtain ⟨e, he, heq⟩ := List.mem_map.1 hmem
    exact heq ▸ hmembers e.1 e.2 (KeyMap.get?_eq_some_iff.2 he)
  have hseen : (∅ : Seen)[(0 : NodeId)]? = none := Std.HashMap.getElem?_empty
  rw [encode, encodeWithin, maxDepth, encodeItem_node, hseen]
  simp only [node?, List.getElem?_toArray, List.getElem?_cons_zero]
  rw [encodeSlots_scalars _ _ _ hslots]
  exact ⟨_, rfl⟩

end Content

namespace Reply

theorem flat_message (text : String) : (message text).Flat :=
  Content.flat_object.set_string _ text

theorem flat_error (reason : String) : (error reason).Flat :=
  flat_message _

/-- What a message says. -/
theorem field?_message (text : String) :
    (message text).field? "message" = some (.string text) :=
  Content.field?_set_string _ _ text

/-- **What an error says**: that it is one, and the reason. -/
theorem field?_error (reason : String) :
    (error reason).field? "message" = some (.string ("Error: " ++ reason)) :=
  field?_message _

theorem flat_storage (word : Option StorageWord) : (storage word).Flat := by
  rcases word with _ | word
  · exact (flat_message _).set_null _
  · exact (flat_message _).set_string _ _

end Reply

/-! ## Sending -/

theorem Envelope.exists_frame {e : Envelope} {value : Json} (h : e.content.encode = .ok value) :
    ∃ frame, e.frame = .ok frame := by
  have hencode : ∃ bytes, e.encode = .ok bytes := ⟨_, by rw [Envelope.encode, h]; rfl⟩
  obtain ⟨bytes, hbytes⟩ := hencode
  unfold Envelope.frame
  split
  · exact ⟨_, rfl⟩
  · next fault hfault => simp [hbytes] at hfault

/-- Why a message is not sent: it cannot be written, or the link takes no frames. -/
def BridgeError.OfSending (fault : BridgeError) : Prop :=
  fault = .transport .sendFailed ∨ ∃ error, fault = .wire error

namespace Session

/-- **What sending a message comes to.** -/
theorem send_cases (s : Session) (e : Envelope) :
    (∃ frame : Frame, frame.envelope = e ∧ s.send e = ⟨s, [.send s.id frame], none⟩) ∨
      ∃ fault, fault.OfSending ∧ s.send e = ⟨s, [], some fault⟩ := by
  unfold send frame
  rcases h : e.frame with fault | frame
  · exact Or.inr ⟨_, Or.inr ⟨fault, rfl⟩, rfl⟩
  · rcases s.accepting
    · exact Or.inr ⟨_, Or.inl rfl, rfl⟩
    · exact Or.inl ⟨frame, Frame.envelope_eq h, rfl⟩

/-- **A flat message is sent, unless the link takes no frames.** -/
theorem send_flat (s : Session) {e : Envelope} (h : e.content.Flat) :
    (∃ frame : Frame, frame.envelope = e ∧ s.send e = ⟨s, [.send s.id frame], none⟩) ∨
      s.send e = ⟨s, [], some (.transport .sendFailed)⟩ := by
  obtain ⟨value, hvalue⟩ := h.exists_encode
  obtain ⟨frame, hframe⟩ := Envelope.exists_frame hvalue
  unfold send Session.frame
  rw [hframe]
  rcases s.accepting
  · exact Or.inr rfl
  · exact Or.inl ⟨frame, Frame.envelope_eq hframe, rfl⟩

theorem envelope_of_frame {s : Session} {e : Envelope} {frame : Frame} (h : s.frame e = .ok frame) :
    frame.envelope = e := by
  rw [Session.frame] at h
  rcases hframe : e.frame with fault | sent
  · rw [hframe] at h
    cases h
  · rw [hframe] at h
    rcases haccepting : s.accepting
    · simp [haccepting] at h
    · simp only [haccepting, if_true, Except.ok.injEq] at h
      exact h ▸ Frame.envelope_eq hframe

/-- What can be written is sent while the link takes frames. -/
theorem frame_of_accepting {s : Session} (h : s.accepting = true) {e : Envelope} {value : Json}
    (hvalue : e.content.encode = .ok value) : ∃ frame, s.frame e = .ok frame := by
  obtain ⟨frame, hframe⟩ := Envelope.exists_frame hvalue
  exact ⟨frame, by rw [Session.frame, hframe, h]; rfl⟩

/-- Nothing is sent when the link takes no frames. -/
theorem fault_send_of_deaf {s : Session} (h : s.accepting = false) (e : Envelope) :
    (s.send e).fault.isSome := by
  unfold send frame
  rw [h]
  rcases e.frame with fault | frame <;> rfl

end Session

end DebugBridge

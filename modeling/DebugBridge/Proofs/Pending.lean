import DebugBridge.Pending
import DebugBridge.Proofs.KeyMap

/-!
# Proofs/Pending — which calls wait in a table

The calls that wait in a table are listed with the ids under which they do (`calls`). Each operation
of the table adds at most one of them, and gives back what it removes.
-/

namespace DebugBridge

/-- The call that a continuation is of. -/
def Continuation.call? : Continuation → Option CallId
  | .resume call => some call
  | .awaitingReply => none

namespace Pending

/-- The calls that wait, each with the id under which it does. -/
def calls (p : Pending) : List (RequestId × CallId) :=
  p.entries.entries.filterMap fun entry => entry.2.call?.map (Prod.mk entry.1)

/-- A call waits under an id if its resumer is pending there. -/
theorem mem_calls {p : Pending} {id : RequestId} {call : CallId} :
    (id, call) ∈ p.calls ↔ p.get? id = some (.resume call) := by
  rw [calls, List.mem_filterMap, get?, KeyMap.get?_eq_some_iff]
  constructor
  · rintro ⟨⟨k, _ | _⟩, hmem, h⟩
    · obtain ⟨rfl, rfl⟩ := Prod.mk.inj (Option.some.inj h)
      exact hmem
    · cases h
  · intro hmem
    exact ⟨(id, .resume call), hmem, rfl⟩

/-- When all entries come to an end, so do the waits of the calls. -/
theorem flatMap_settle (p : Pending) (ending : Ending) :
    p.entries.values.flatMap (·.settle ending) = p.calls.map fun place => ⟨place.2, ending⟩ := by
  rw [calls, KeyMap.values]
  induction p.entries.entries with
  | nil => rfl
  | cons entry rest ih =>
    rw [List.map_cons, List.flatMap_cons, ih, List.filterMap_cons]
    rcases entry with ⟨id, call | _⟩ <;> rfl

/-! ## Operations by what is pending -/

/-- What is registered under a free id is entered. -/
theorem register_of_none {p : Pending} {id : RequestId} (h : p.get? id = none)
    (continuation : Continuation) :
    p.register id continuation = .ok ⟨p.entries.insert id continuation⟩ := by
  rw [register, contains_eq, h]
  rfl

/-- An id that is taken is refused. -/
theorem register_of_some {p : Pending} {id : RequestId} {held : Continuation}
    (h : p.get? id = some held) (continuation : Continuation) :
    p.register id continuation = .error (.duplicateRequest id) := by
  rw [register, contains_eq, h]
  rfl

/-- To drop what is not there changes nothing. -/
theorem drop_of_none {p : Pending} {id : RequestId} (h : p.get? id = none) :
    p.drop id = (p, []) := by
  rw [drop, take?, h]
  rfl

/-- To drop an entry releases who waits for it. -/
theorem drop_of_some {p : Pending} {id : RequestId} {held : Continuation}
    (h : p.get? id = some held) :
    p.drop id = (⟨p.entries.erase id⟩, held.settle .released) := by
  rw [drop, take?, h]
  rfl

/-- An entry that is there is taken out. -/
theorem take?_of_some {p : Pending} {id : RequestId} {held : Continuation}
    (h : p.get? id = some held) : p.take? id = some (held, ⟨p.entries.erase id⟩) := by
  rw [take?, h]
  rfl

/-- What is not there cannot be taken. -/
theorem take?_of_none {p : Pending} {id : RequestId} (h : p.get? id = none) :
    p.take? id = none := by
  rw [take?, h]
  rfl

/-- An entry that was just made can be dropped as if it had never been there. -/
theorem erase_insert {p : Pending} {id : RequestId} (h : p.get? id = none)
    (continuation : Continuation) : (p.entries.insert id continuation).erase id = p.entries := by
  refine KeyMap.ext_get? fun key => ?_
  rw [KeyMap.get?_erase, KeyMap.get?_insert]
  split
  · next heq => rw [heq]; exact h.symm
  · rfl

/-! ## The calls of an operation -/

/-- A table with one more entry has one more call, if the entry is one of a call. -/
theorem calls_of_entry {p q : Pending} {id : RequestId} {held : Continuation}
    (hid : q.get? id = none) (h : ∀ k, p.get? k = if k = id then some held else q.get? k) :
    p.calls.Perm ((held.call?.map (Prod.mk id)).toList ++ q.calls) := by
  have hperm := (KeyMap.entries_perm_cons hid h).filterMap
    fun entry => entry.2.call?.map (Prod.mk entry.1)
  refine hperm.trans (List.Perm.of_eq ?_)
  rw [List.filterMap_cons]
  rcases held <;> rfl

/-- A new entry adds its call, if it has one, to those that wait. -/
theorem calls_insert {p : Pending} {id : RequestId} (h : p.get? id = none) (held : Continuation) :
    (⟨p.entries.insert id held⟩ : Pending).calls.Perm
      ((held.call?.map (Prod.mk id)).toList ++ p.calls) :=
  calls_of_entry h (KeyMap.get?_insert _ _ _)

/-- Those that wait are the call of an entry, if it has one, and those without the entry. -/
theorem calls_erase {p : Pending} {id : RequestId} {held : Continuation}
    (h : p.get? id = some held) :
    p.calls.Perm
      ((held.call?.map (Prod.mk id)).toList ++ (⟨p.entries.erase id⟩ : Pending).calls) := by
  have hid : (⟨p.entries.erase id⟩ : Pending).get? id = none := by simp
  refine calls_of_entry hid fun k => ?_
  show p.get? k = if k = id then some held else (p.entries.erase id).get? k
  rw [KeyMap.get?_erase]
  split
  · next heq => rw [heq, h]
  · rfl

/-- Setting an entry takes the place of the one that was there. -/
theorem calls_reassign (p : Pending) (id : RequestId) (held : Continuation) :
    ((⟨p.entries.insert id held⟩ : Pending).calls ++
        ((p.get? id).bind (·.call?.map (Prod.mk id))).toList).Perm
      ((held.call?.map (Prod.mk id)).toList ++ p.calls) := by
  rcases h : p.get? id with _ | previous
  · rw [Option.bind_none, Option.toList_none, List.append_nil]
    exact calls_insert h held
  · have hid : (⟨p.entries.erase id⟩ : Pending).get? id = none := by simp
    have hagain : (p.entries.erase id).insert id held = p.entries.insert id held := by
      refine KeyMap.ext_get? fun key => ?_
      rw [KeyMap.get?_insert, KeyMap.get?_insert, KeyMap.get?_erase]
      split <;> rfl
    have hinsert := calls_insert hid held
    rw [hagain] at hinsert
    refine (hinsert.append_right _).trans ?_
    rw [List.append_assoc]
    exact (List.perm_append_comm.trans (calls_erase h).symm).append_left _

end Pending

end DebugBridge

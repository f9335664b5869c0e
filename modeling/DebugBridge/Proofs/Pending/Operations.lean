import DebugBridge.Proofs.Pending
import Mathlib.Data.Set.Card

/-!
# Pending/Operations — what an operation on a table comes to

An operation leaves a table, may hand a continuation back to the user of the table, and ends calls
(`Pending.perform`). What each of them comes to is said by one equation in terms of `get?`. From
these it follows that no operation makes what resumes a call or loses it (`calls_perform`), which
calls an operation ends, and how (`Ends`, `mem_wakes_perform`), and which it hands back
(`HandsBack`, `mem_back_perform`).
-/

namespace DebugBridge

namespace Pending

/-! ## Counting -/

theorem ncard_mem_list {α : Type} [DecidableEq α] {l : List α} (h : l.Nodup) :
    {x | x ∈ l}.ncard = l.length := by
  rw [← List.coe_toFinset, Set.ncard_coe_finset, List.toFinset_card_of_nodup h]

/-- **The size of a table is the number of its ids.** -/
theorem size_eq_ncard (p : Pending) : p.size = {id | (p.get? id).isSome}.ncard := by
  have hlive : {id | (p.get? id).isSome} = {id | id ∈ p.entries.keys} := by
    ext id
    simp only [Set.mem_ofPred_eq, Option.isSome_iff_exists, KeyMap.keys, List.mem_map]
    constructor
    · rintro ⟨held, hheld⟩
      exact ⟨(id, held), KeyMap.get?_eq_some_iff.1 hheld, rfl⟩
    · rintro ⟨⟨k, held⟩, hmem, rfl⟩
      exact ⟨held, KeyMap.get?_eq_some_iff.2 hmem⟩
  rw [hlive, ncard_mem_list p.entries.nodup_keys, KeyMap.keys, List.length_map]
  rfl

/-- No two calls wait under one id. -/
theorem nodup_calls_ids (p : Pending) : (p.calls.map (·.1)).Nodup := by
  refine List.pairwise_map.2 (List.pairwise_filterMap.2 (p.entries.sorted.imp ?_))
  rintro ⟨k, held⟩ ⟨k', held'⟩ hlt place hplace place' hplace' heq
  obtain ⟨call, -, rfl⟩ := Option.map_eq_some_iff.1 hplace
  obtain ⟨call', -, rfl⟩ := Option.map_eq_some_iff.1 hplace'
  obtain rfl : k = k' := heq
  exact String.lt_irrefl k hlt

/-- **The calls that wait are as many as the ids under which they do.** -/
theorem length_calls_eq_ncard (p : Pending) :
    p.calls.length = {id | ∃ call, p.get? id = some (.resume call)}.ncard := by
  have hholds : {id | ∃ call, p.get? id = some (.resume call)} =
      {id | id ∈ p.calls.map (·.1)} := by
    ext id
    simp only [Set.mem_ofPred_eq, List.mem_map, ← mem_calls]
    constructor
    · rintro ⟨call, hcall⟩
      exact ⟨(id, call), hcall, rfl⟩
    · rintro ⟨⟨k, call⟩, hcall, rfl⟩
      exact ⟨call, hcall⟩
  rw [hholds, ncard_mem_list p.nodup_calls_ids, List.length_map]

/-! ## Operations -/

/-- **An id can be registered exactly if it is not in use.** -/
theorem exists_register_iff {p : Pending} {id : RequestId} {continuation : Continuation} :
    (∃ table, p.register id continuation = .ok table) ↔ p.get? id = none := by
  rcases h : p.get? id with _ | held
  · exact iff_of_true ⟨_, register_of_none h continuation⟩ rfl
  · rw [register_of_some h]
    exact iff_of_false (by rintro ⟨_, ⟨⟩⟩) (Option.some_ne_none held)

/-- **A response is taken exactly if its id is in use.** -/
theorem isSome_resolve? (p : Pending) (response : Envelope) :
    (p.resolve? response).isSome = (p.get? response.id).isSome := by
  rw [resolve?, take?, Option.isSome_map, Option.isSome_map]

/-- **When all fail**, as many do as there are ids with calls. -/
theorem length_failAll (p : Pending) (error : BridgeError) :
    (p.failAll error).2.length = {id | ∃ call, p.get? id = some (.resume call)}.ncard := by
  rw [failAll, flatMap_settle, List.length_map, length_calls_eq_ncard]

/-- An operation on a table. -/
inductive Operation where
  | register (id : RequestId) (continuation : Continuation)
  | resolve (response : Envelope)
  | drop (id : RequestId)
  | take (id : RequestId)
  /-- What was there before is kept by the user of the table, or let go of. -/
  | reassign (id : RequestId) (continuation : Continuation) (keeps : Bool)
  | failAll (error : BridgeError)
  deriving DecidableEq, Repr

/-- The call whose resumer an operation offers to the table. -/
def Operation.offer? : Operation → Option CallId
  | .register _ continuation | .reassign _ continuation _ => continuation.call?
  | _ => none

/-- What an operation comes to. -/
structure Outcome where
  table : Pending
  /-- The continuation that the user of the table gets. -/
  back : Option Continuation
  wakes : List Wake

/-- **What an operation does.** What is offered to no avail is let go of. -/
def perform (p : Pending) : Operation → Outcome
  | .register id continuation =>
    match p.register id continuation with
    | .ok table => ⟨table, none, []⟩
    | .error _ => ⟨p, none, continuation.settle .released⟩
  | .resolve response =>
    match p.resolve? response with
    | some (table, wakes) => ⟨table, none, wakes⟩
    | none => ⟨p, none, []⟩
  | .drop id =>
    let (table, wakes) := p.drop id
    ⟨table, none, wakes⟩
  | .take id =>
    match p.take? id with
    | some (continuation, table) => ⟨table, some continuation, []⟩
    | none => ⟨p, none, []⟩
  | .reassign id continuation keeps =>
    let (table, previous) := p.reassign id continuation
    if keeps then ⟨table, previous, []⟩
    else ⟨table, none, previous.toList.flatMap (·.settle .released)⟩
  | .failAll error =>
    let (table, wakes) := p.failAll error
    ⟨table, none, wakes⟩

/-! ## What each operation does -/

section

variable {p : Pending} {id : RequestId} {call : CallId}

/-- The wakes of what was under an id. -/
def wakesOf (held? : Option Continuation) (ending : Ending) : List Wake :=
  held?.toList.flatMap (·.settle ending)

theorem map_call_wakesOf (held? : Option Continuation) (ending : Ending) :
    (wakesOf held? ending).map (·.call) = (held?.bind (·.call?)).toList := by
  rcases held? with _ | call | _ <;> rfl

theorem mem_wakesOf {held? : Option Continuation} {ending : Ending} {wake : Wake} :
    wake ∈ wakesOf held? ending ↔
      ∃ call, held? = some (.resume call) ∧ wake = ⟨call, ending⟩ := by
  rcases held? with _ | call | _ <;> simp [wakesOf, Continuation.settle]

theorem erase_of_none (h : p.get? id = none) : (⟨p.entries.erase id⟩ : Pending) = p := by
  refine congrArg mk (KeyMap.ext_get? fun key => ?_)
  rw [KeyMap.get?_erase]
  split
  · next heq => rw [heq]; exact h.symm
  · rfl

theorem perform_register_of_none (h : p.get? id = none) (continuation : Continuation) :
    p.perform (.register id continuation) =
      ⟨⟨p.entries.insert id continuation⟩, none, []⟩ := by
  rw [perform, register_of_none h]

theorem perform_register_of_some {held : Continuation} (h : p.get? id = some held)
    (continuation : Continuation) :
    p.perform (.register id continuation) =
      ⟨p, none, wakesOf (some continuation) .released⟩ := by
  rw [perform, register_of_some h, wakesOf, Option.toList_some, List.flatMap_singleton]

variable (p id)

theorem perform_resolve (response : Envelope) :
    p.perform (.resolve response) =
      ⟨⟨p.entries.erase response.id⟩, none,
        wakesOf (p.get? response.id) (.resumed response)⟩ := by
  rw [perform, resolve?]
  rcases h : p.get? response.id with _ | held
  · rw [take?_of_none h, erase_of_none h]
    rfl
  · rw [take?_of_some h, wakesOf, Option.toList_some, List.flatMap_singleton]
    rfl

theorem perform_drop :
    p.perform (.drop id) = ⟨⟨p.entries.erase id⟩, none, wakesOf (p.get? id) .released⟩ := by
  rw [perform]
  rcases h : p.get? id with _ | held
  · rw [drop_of_none h, erase_of_none h]
    rfl
  · rw [drop_of_some h, wakesOf, Option.toList_some, List.flatMap_singleton]

theorem perform_take : p.perform (.take id) = ⟨⟨p.entries.erase id⟩, p.get? id, []⟩ := by
  rw [perform]
  rcases h : p.get? id with _ | held
  · rw [take?_of_none h, erase_of_none h]
  · rw [take?_of_some h]

theorem perform_reassign_letGo (continuation : Continuation) :
    p.perform (.reassign id continuation false) =
      ⟨⟨p.entries.insert id continuation⟩, none, wakesOf (p.get? id) .released⟩ := rfl

theorem perform_failAll (error : BridgeError) :
    p.perform (.failAll error) =
      ⟨.empty, none, p.calls.map fun place => ⟨place.2, .failed error⟩⟩ := by
  rw [perform, failAll, flatMap_settle]

end

/-! ## No resumer is made or lost -/

/-- The calls that wait in a table, and no ids. -/
def waiting (p : Pending) : List CallId :=
  p.calls.map (·.2)

theorem mem_waiting {p : Pending} {call : CallId} :
    call ∈ p.waiting ↔ ∃ id, p.get? id = some (.resume call) := by
  simp only [waiting, List.mem_map, Prod.exists, exists_eq_right, mem_calls]

theorem map_snd_toList (id : RequestId) (call? : Option CallId) :
    (call?.map (Prod.mk id)).toList.map (·.2) = call?.toList := by
  rcases call? <;> rfl

theorem waiting_insert {p : Pending} {id : RequestId} (h : p.get? id = none)
    (held : Continuation) :
    (⟨p.entries.insert id held⟩ : Pending).waiting.Perm (held.call?.toList ++ p.waiting) := by
  have hperm := (calls_insert h held).map (·.2)
  rwa [List.map_append, map_snd_toList] at hperm

theorem waiting_erase (p : Pending) (id : RequestId) :
    (((p.get? id).bind (·.call?)).toList ++ (⟨p.entries.erase id⟩ : Pending).waiting).Perm
      p.waiting := by
  rcases h : p.get? id with _ | held
  · rw [erase_of_none h]
    exact .refl _
  · have hperm := (calls_erase h).map (·.2)
    rw [List.map_append, map_snd_toList] at hperm
    exact hperm.symm

theorem waiting_reassign (p : Pending) (id : RequestId) (held : Continuation) :
    (((p.get? id).bind (·.call?)).toList ++ (⟨p.entries.insert id held⟩ : Pending).waiting).Perm
      (held.call?.toList ++ p.waiting) := by
  have hbind : ((p.get? id).bind (·.call?.map (Prod.mk id))) =
      ((p.get? id).bind (·.call?)).map (Prod.mk id) := by
    rcases p.get? id <;> rfl
  have hperm := (calls_reassign p id held).map (·.2)
  rw [List.map_append, List.map_append, hbind, map_snd_toList, map_snd_toList] at hperm
  exact List.perm_append_comm.trans hperm

/-- **No operation makes a resumer or loses one**: what ends, what waits and what is handed back are
what has waited and what was offered. -/
theorem calls_perform (p : Pending) (op : Operation) :
    ((p.perform op).wakes.map (·.call) ++
        (((p.perform op).back.bind (·.call?)).toList ++ (p.perform op).table.waiting)).Perm
      (op.offer?.toList ++ p.waiting) := by
  cases op with
  | register id continuation =>
    rcases h : p.get? id with _ | held
    · rw [perform_register_of_none h]
      exact waiting_insert h continuation
    · rw [perform_register_of_some h, map_call_wakesOf]
      exact .refl _
  | resolve response =>
    rw [perform_resolve, map_call_wakesOf]
    exact p.waiting_erase response.id
  | drop id =>
    rw [perform_drop, map_call_wakesOf]
    exact p.waiting_erase id
  | take id =>
    rw [perform_take]
    exact p.waiting_erase id
  | reassign id continuation keeps =>
    rcases keeps with _ | _
    · rw [perform_reassign_letGo, map_call_wakesOf]
      exact p.waiting_reassign id continuation
    · exact p.waiting_reassign id continuation
  | failAll error =>
    rw [perform_failAll, List.map_map]
    exact List.Perm.of_eq (List.append_nil p.waiting)

/-! ## Ends -/

/-- **Which calls an operation ends, and how.** -/
inductive Ends (p : Pending) : Operation → Wake → Prop
  | resolved {response : Envelope} {call : CallId} : p.get? response.id = some (.resume call) →
    Ends p (.resolve response) ⟨call, .resumed response⟩
  | failed {error : BridgeError} {id : RequestId} {call : CallId} :
    p.get? id = some (.resume call) → Ends p (.failAll error) ⟨call, .failed error⟩
  | dropped {id : RequestId} {call : CallId} : p.get? id = some (.resume call) →
    Ends p (.drop id) ⟨call, .released⟩
  | overwritten {id : RequestId} {continuation : Continuation} {call : CallId} :
    p.get? id = some (.resume call) →
    Ends p (.reassign id continuation false) ⟨call, .released⟩
  | refused {id : RequestId} {held : Continuation} {call : CallId} : p.get? id = some held →
    Ends p (.register id (.resume call)) ⟨call, .released⟩

/-- **The calls that an operation ends.** -/
theorem mem_wakes_perform {p : Pending} {op : Operation} {wake : Wake} :
    wake ∈ (p.perform op).wakes ↔ p.Ends op wake := by
  constructor
  · intro hwake
    cases op with
    | register id continuation =>
      rcases h : p.get? id with _ | held
      · rw [perform_register_of_none h] at hwake
        cases hwake
      · rw [perform_register_of_some h] at hwake
        obtain ⟨call, hcall, rfl⟩ := mem_wakesOf.1 hwake
        obtain rfl := Option.some.inj hcall
        exact .refused h
    | resolve response =>
      rw [perform_resolve] at hwake
      obtain ⟨call, hcall, rfl⟩ := mem_wakesOf.1 hwake
      exact .resolved hcall
    | drop id =>
      rw [perform_drop] at hwake
      obtain ⟨call, hcall, rfl⟩ := mem_wakesOf.1 hwake
      exact .dropped hcall
    | take id =>
      rw [perform_take] at hwake
      cases hwake
    | reassign id continuation keeps =>
      rcases keeps with _ | _
      · rw [perform_reassign_letGo] at hwake
        obtain ⟨call, hcall, rfl⟩ := mem_wakesOf.1 hwake
        exact .overwritten hcall
      · cases hwake
    | failAll error =>
      rw [perform_failAll] at hwake
      obtain ⟨⟨id, call⟩, hcall, rfl⟩ := List.mem_map.1 hwake
      exact .failed (mem_calls.1 hcall)
  · intro hends
    cases hends with
    | resolved hcall =>
      rw [perform_resolve]
      exact mem_wakesOf.2 ⟨_, hcall, rfl⟩
    | failed hcall =>
      rw [perform_failAll]
      exact List.mem_map.2 ⟨_, mem_calls.2 hcall, rfl⟩
    | dropped hcall =>
      rw [perform_drop]
      exact mem_wakesOf.2 ⟨_, hcall, rfl⟩
    | overwritten hcall =>
      rw [perform_reassign_letGo]
      exact mem_wakesOf.2 ⟨_, hcall, rfl⟩
    | refused h =>
      rw [perform_register_of_some h]
      exact mem_wakesOf.2 ⟨_, rfl, rfl⟩

/-- **Which calls an operation hands back** to the user of the table. -/
inductive HandsBack (p : Pending) : Operation → CallId → Prop
  | taken {id : RequestId} {call : CallId} : p.get? id = some (.resume call) →
    HandsBack p (.take id) call
  | replaced {id : RequestId} {continuation : Continuation} {call : CallId} :
    p.get? id = some (.resume call) → HandsBack p (.reassign id continuation true) call

theorem mem_back_perform {p : Pending} {op : Operation} {call : CallId} :
    call ∈ ((p.perform op).back.bind (·.call?)).toList ↔ p.HandsBack op call := by
  have hcall {held? : Option Continuation} :
      call ∈ (held?.bind (·.call?)).toList ↔ held? = some (.resume call) := by
    rcases held? with _ | other | _ <;> simp [Continuation.call?, eq_comm]
  rw [hcall]
  constructor
  · intro hback
    cases op with
    | register id continuation =>
      rcases h : p.get? id with _ | held
      · rw [perform_register_of_none h] at hback
        cases hback
      · rw [perform_register_of_some h] at hback
        cases hback
    | resolve response =>
      rw [perform_resolve] at hback
      cases hback
    | take id =>
      rw [perform_take] at hback
      exact .taken hback
    | reassign id continuation keeps =>
      rcases keeps with _ | _
      · cases hback
      · exact .replaced hback
    | drop | failAll => cases hback
  · intro hback
    cases hback with
    | taken h =>
      rw [perform_take]
      exact h
    | replaced h => exact h

end Pending

end DebugBridge

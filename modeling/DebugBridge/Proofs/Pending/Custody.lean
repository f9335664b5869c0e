import DebugBridge.Proofs.Pending.Operations
import Mathlib.Data.List.Induction

/-!
# Pending/Custody — where a paused call is

What resumes a paused call is in one place at a time. It is offered to a table under an id; there it
stays until it is handed back to the user of the table, who may offer it again, or until it ends the
call. No operation makes one or loses one, so after any history every call that was offered has
ended once, waits under one id, or is with the user (`Placed.step`, `Placed.at_unique`). What has
ended after a history is what one of its operations ended (`mem_wakes_run`), and what the user has
is what one of them handed back and none has offered since (`mem_held_run`).

```
  user  --register, reassign-->  table  --resolve, drop, failAll-->  ended
   ^                              |  |                                 ^
   +----- take, reassign ---------+  +------ reassign, let go of ------+
```
-/

namespace DebugBridge

open Pending (Operation)

/-! ## Histories -/

/-- **A table with what its operations have come to.** -/
structure Custody where
  table : Pending
  /-- The calls whose resumers have been offered to the table. -/
  offered : List CallId
  /-- The calls whose resumers the user of the table has. -/
  held : List CallId
  wakes : List Wake

namespace Custody

def empty : Custody := ⟨.empty, [], [], []⟩

/-- **What an operation comes to.** What is offered is no longer with the user of the table. -/
def step (s : Custody) (op : Operation) : Custody where
  table := (s.table.perform op).table
  offered := s.offered ++ op.offer?.toList.filter (· ∉ s.held)
  held := op.offer?.elim s.held s.held.erase ++
    ((s.table.perform op).back.bind (·.call?)).toList
  wakes := s.wakes ++ (s.table.perform op).wakes

def run (s : Custody) (history : List Operation) : Custody :=
  history.foldl step s

/-- **Whether an operation offers what can be offered**: a resumer cannot be copied, so it is new or
the user of the table has it. -/
def Allows (s : Custody) (op : Operation) : Prop :=
  ∀ call ∈ op.offer?, call ∈ s.offered → call ∈ s.held

/-- Operations that are possible one after the other. -/
def Legal (s : Custody) : List Operation → Prop
  | [] => True
  | op :: rest => s.Allows op ∧ Legal (s.step op) rest

instance (s : Custody) (op : Operation) : Decidable (s.Allows op) :=
  inferInstanceAs (Decidable (∀ call ∈ op.offer?, call ∈ s.offered → call ∈ s.held))

instance decidableLegal (s : Custody) : (history : List Operation) → Decidable (s.Legal history)
  | [] => isTrue trivial
  | op :: rest => @instDecidableAnd _ _ _ (decidableLegal (s.step op) rest)

theorem run_concat (s : Custody) (history : List Operation) (op : Operation) :
    s.run (history ++ [op]) = (s.run history).step op := by
  rw [run, List.foldl_append]
  rfl

theorem legal_append {s : Custody} {first second : List Operation} :
    s.Legal (first ++ second) ↔ s.Legal first ∧ (s.run first).Legal second := by
  induction first generalizing s with
  | nil => simp [Legal, run]
  | cons op first ih => simp [Legal, ih, run, and_assoc]

/-! ## One place for every call -/

/-- **Whether every call that was offered is in one place.** -/
structure Placed (s : Custody) : Prop where
  places : (s.wakes.map (·.call) ++ (s.table.waiting ++ s.held)).Perm s.offered
  nodup : s.offered.Nodup

variable {s : Custody} {op : Operation} {history : List Operation} {call : CallId}

theorem placed_empty : Placed empty := ⟨.nil, .nil⟩

/-- What is offered was with the user of the table, or is new. -/
theorem perm_offer (s : Custody) (offer? : Option CallId) :
    (offer?.toList ++ offer?.elim s.held s.held.erase).Perm
      (s.held ++ offer?.toList.filter (· ∉ s.held)) := by
  rcases offer? with _ | call
  · simp
  · by_cases hheld : call ∈ s.held
    · simpa [hheld] using (List.perm_cons_erase hheld).symm
    · simpa [hheld, List.erase_of_not_mem hheld] using (List.perm_append_singleton call s.held).symm

/-- **An operation keeps every call in one place.** -/
theorem Placed.step (h : s.Placed) (hop : s.Allows op) : (s.step op).Placed where
  places := by
    refine List.perm_iff_count.2 fun c => ?_
    have hbefore := h.places.count_eq c
    have hperform := (s.table.calls_perform op).count_eq c
    have hoffer := (s.perm_offer op.offer?).count_eq c
    simp only [Custody.step, List.map_append, List.count_append] at hbefore hperform hoffer ⊢
    omega
  nodup := by
    refine List.nodup_append.2 ⟨h.nodup, ?_, fun a ha b hb heq => ?_⟩
    · rcases op.offer? with _ | call
      · exact .nil
      · exact (List.nodup_singleton call).filter _
    · obtain ⟨hmem, hnew⟩ := List.mem_filter.1 hb
      have hoffer : b ∈ op.offer? := Option.mem_toList.1 hmem
      exact of_decide_eq_true hnew (hop b hoffer (heq ▸ ha))

theorem Placed.run (h : s.Placed) (legal : s.Legal history) : (s.run history).Placed := by
  induction history generalizing s with
  | nil => exact h
  | cons op rest ih => exact ih (h.step legal.1) legal.2

/-- Where a call can be. -/
inductive Place where
  | ended (ending : Ending)
  | under (id : RequestId)
  /-- With the user of the table. -/
  | user

/-- Whether a call is in a place. -/
def At (s : Custody) (call : CallId) : Place → Prop
  | .ended ending => ⟨call, ending⟩ ∈ s.wakes
  | .under id => s.table.get? id = some (.resume call)
  | .user => call ∈ s.held

instance (s : Custody) (call : CallId) : (place : Place) → Decidable (s.At call place)
  | .ended ending => inferInstanceAs (Decidable (⟨call, ending⟩ ∈ s.wakes))
  | .under id => inferInstanceAs (Decidable (s.table.get? id = some (.resume call)))
  | .user => inferInstanceAs (Decidable (call ∈ s.held))

namespace Placed

theorem nodup_all (h : s.Placed) :
    (s.wakes.map (·.call) ++ (s.table.waiting ++ s.held)).Nodup :=
  h.places.nodup_iff.2 h.nodup

/-- **No call ends twice.** -/
theorem nodup_wakes (h : s.Placed) : (s.wakes.map (·.call)).Nodup :=
  (List.nodup_append.1 h.nodup_all).1

theorem nodup_held (h : s.Placed) : s.held.Nodup :=
  (List.nodup_append.1 (List.nodup_append.1 h.nodup_all).2.1).2.1

/-- **A call that was offered is somewhere.** -/
theorem exists_at (h : s.Placed) (hcall : call ∈ s.offered) : ∃ place, s.At call place := by
  rw [← h.places.mem_iff, List.mem_append, List.mem_append, List.mem_map,
    Pending.mem_waiting] at hcall
  rcases hcall with ⟨⟨_, ending⟩, hwake, rfl⟩ | ⟨id, hid⟩ | hheld
  · exact ⟨.ended ending, hwake⟩
  · exact ⟨.under id, hid⟩
  · exact ⟨.user, hheld⟩

/-- **And nowhere else.** -/
theorem at_unique (h : s.Placed) {place place' : Place} (hplace : s.At call place)
    (hplace' : s.At call place') : place = place' := by
  obtain ⟨hwakes, hrest, hended⟩ := List.nodup_append.1 h.nodup_all
  obtain ⟨hwaiting, -, hwith⟩ := List.nodup_append.1 hrest
  have ended_at {ending : Ending} (hwake : s.At call (.ended ending)) :
      call ∈ s.wakes.map (·.call) := List.mem_map.2 ⟨_, hwake, rfl⟩
  have under_at {id : RequestId} (hid : s.At call (.under id)) : call ∈ s.table.waiting :=
    Pending.mem_waiting.2 ⟨id, hid⟩
  rcases place with ending | id | _ <;> rcases place' with ending' | id' | _
  case ended.ended =>
    have heq := List.inj_on_of_nodup_map hwakes hplace hplace' rfl
    exact congrArg Place.ended (Wake.mk.inj heq).2
  case under.under =>
    have heq := List.inj_on_of_nodup_map hwaiting (Pending.mem_calls.2 hplace)
      (Pending.mem_calls.2 hplace') rfl
    exact congrArg Place.under (Prod.mk.inj heq).1
  case user.user => rfl
  case ended.under =>
    exact absurd rfl (hended _ (ended_at hplace) _ (List.mem_append_left _ (under_at hplace')))
  case under.ended =>
    exact absurd rfl (hended _ (ended_at hplace') _ (List.mem_append_left _ (under_at hplace)))
  case ended.user =>
    exact absurd rfl (hended _ (ended_at hplace) _ (List.mem_append_right _ hplace'))
  case user.ended =>
    exact absurd rfl (hended _ (ended_at hplace') _ (List.mem_append_right _ hplace))
  case under.user => exact absurd rfl (hwith _ (under_at hplace) _ hplace')
  case user.under => exact absurd rfl (hwith _ (under_at hplace') _ hplace)

end Placed

/-! ## What a history tells -/

/-- An operation of a longer history is one of the shorter one or the last. -/
theorem exists_split_concat {P : List Operation → Operation → List Operation → Prop} :
    (∃ before o after, history ++ [op] = before ++ o :: after ∧ P before o after) ↔
      (∃ before o after, history = before ++ o :: after ∧ P before o (after ++ [op])) ∨
        P history op [] := by
  constructor
  · rintro ⟨before, o, after, heq, h⟩
    rcases List.eq_nil_or_concat after with rfl | ⟨after, last, rfl⟩
    · obtain ⟨rfl, hlast⟩ := List.append_inj' heq rfl
      obtain rfl := (List.cons.inj hlast).1
      exact .inr h
    · rw [List.concat_eq_append] at heq h
      rw [← List.cons_append, ← List.append_assoc] at heq
      obtain ⟨rfl, hlast⟩ := List.append_inj' heq rfl
      obtain rfl := (List.cons.inj hlast).1
      exact .inl ⟨before, o, after, rfl, h⟩
  · rintro (⟨before, o, after, rfl, h⟩ | h)
    · exact ⟨before, o, after ++ [op], by simp, h⟩
    · exact ⟨history, op, [], rfl, h⟩

/-- **What has ended is what an operation ended.** -/
theorem mem_wakes_run {wake : Wake} : wake ∈ (empty.run history).wakes ↔
    ∃ before op after, history = before ++ op :: after ∧
      (empty.run before).table.Ends op wake := by
  induction history using List.reverseRecOn with
  | nil => simp [run, empty]
  | append_singleton history op ih =>
    rw [run_concat, exists_split_concat, ← ih, ← Pending.mem_wakes_perform]
    exact List.mem_append

/-- **What was offered is what an operation offered.** -/
theorem mem_offered_run (legal : empty.Legal history) :
    call ∈ (empty.run history).offered ↔ ∃ op ∈ history, call ∈ op.offer? := by
  induction history using List.reverseRecOn with
  | nil => simp [run, empty]
  | append_singleton history op ih =>
    obtain ⟨hbefore, -⟩ := legal_append.1 legal
    have hplaced := placed_empty.run hbefore
    have hheld (h : call ∈ (empty.run history).held) : call ∈ (empty.run history).offered :=
      hplaced.places.mem_iff.1 (List.mem_append_right _ (List.mem_append_right _ h))
    rw [run_concat]
    show call ∈ (empty.run history).offered ++ _ ↔ _
    rw [List.mem_append, List.mem_filter, Option.mem_toList, decide_eq_true_iff]
    constructor
    · rintro (h | ⟨hoffer, -⟩)
      · obtain ⟨op', hop', hoffer⟩ := (ih hbefore).1 h
        exact ⟨op', List.mem_append_left _ hop', hoffer⟩
      · exact ⟨op, List.mem_append_right _ List.mem_cons_self, hoffer⟩
    · rintro ⟨op', hop', hoffer⟩
      rcases List.mem_append.1 hop' with hop' | hop'
      · exact .inl ((ih hbefore).2 ⟨op', hop', hoffer⟩)
      · obtain rfl := List.mem_singleton.1 hop'
        by_cases h : call ∈ (empty.run history).held
        · exact .inl (hheld h)
        · exact .inr ⟨hoffer, h⟩

/-- **What the user of the table has** was handed back and has not been offered since. -/
theorem mem_held_run (legal : empty.Legal history) : call ∈ (empty.run history).held ↔
    ∃ before op after, history = before ++ op :: after ∧
      (empty.run before).table.HandsBack op call ∧ ∀ later ∈ after, call ∉ later.offer? := by
  induction history using List.reverseRecOn with
  | nil => simp [run, empty]
  | append_singleton history op ih =>
    obtain ⟨hbefore, -⟩ := legal_append.1 legal
    have hnodup := (placed_empty.run hbefore).nodup_held
    have herase : call ∈ op.offer?.elim (empty.run history).held (empty.run history).held.erase ↔
        call ∈ (empty.run history).held ∧ call ∉ op.offer? := by
      rcases op.offer? with _ | other
      · simp
      · rw [Option.elim_some, hnodup.mem_erase_iff, and_comm, Option.mem_some, ne_comm]
    rw [run_concat]
    show call ∈ _ ++ _ ↔ _
    rw [List.mem_append, herase, Pending.mem_back_perform, ih hbefore, exists_split_concat]
    refine or_congr ?_ (and_iff_left (by simp)).symm
    simp only [List.mem_append, List.mem_singleton, or_imp, forall_and, forall_eq]
    constructor
    · rintro ⟨⟨before, o, after, heq, hback, hlater⟩, hlast⟩
      exact ⟨before, o, after, heq, hback, hlater, hlast⟩
    · rintro ⟨before, o, after, heq, hback, hlater, hlast⟩
      exact ⟨⟨before, o, after, heq, hback, hlater⟩, hlast⟩

/-- **The law of the table.** After any history every call whose resumer was offered has ended, once
and in one way, or waits under one id, or is with the user of the table, to whom it was handed back
and who has not offered it since. A call has ended in a way exactly if an operation of the history
has ended it so: resumed by a response to the id under which it waited, failed when it was found in
the table, released when its entry was dropped or was overwritten and let go of, or when it was
offered under an id in use. An id can be registered exactly if it is not in use, and else nothing
changes; a response is taken exactly if its id is in use; when all fail, as many do as there are ids
with calls, and the table is empty; and its size is the number of its ids. -/
theorem at_unique_place (legal : empty.Legal history) :
    let s := empty.run history
    (∀ op ∈ history, ∀ call ∈ op.offer?, ∃! place, s.At call place) ∧
    (s.wakes.map (·.call)).Nodup ∧
    (∀ wake, wake ∈ s.wakes ↔ ∃ before op after, history = before ++ op :: after ∧
      (empty.run before).table.Ends op wake) ∧
    (∀ call, s.At call .user ↔ ∃ before op after, history = before ++ op :: after ∧
      (empty.run before).table.HandsBack op call ∧ ∀ later ∈ after, call ∉ later.offer?) ∧
    (∀ id continuation,
      ((∃ table, s.table.register id continuation = .ok table) ↔ s.table.get? id = none) ∧
      (s.table.get? id = none → ∀ k, (s.table.perform (.register id continuation)).table.get? k =
        if k = id then some continuation else s.table.get? k) ∧
      (s.table.get? id ≠ none →
        (s.table.perform (.register id continuation)).table = s.table)) ∧
    (∀ response, (s.table.resolve? response).isSome ↔ (s.table.get? response.id).isSome) ∧
    (∀ error, (s.table.failAll error).1 = .empty ∧ (s.table.failAll error).2.length =
      {id | ∃ call, s.table.get? id = some (.resume call)}.ncard) ∧
    s.table.size = {id | (s.table.get? id).isSome}.ncard := by
  intro s
  have hplaced := placed_empty.run legal
  refine ⟨fun op hop call hcall => ?_, hplaced.nodup_wakes, fun _ => mem_wakes_run,
    fun _ => mem_held_run legal, fun id continuation => ?_, fun response => ?_, fun error => ?_,
    s.table.size_eq_ncard⟩
  · obtain ⟨place, hplace⟩ := hplaced.exists_at ((mem_offered_run legal).2 ⟨op, hop, hcall⟩)
    exact ⟨place, hplace, fun _ hplace' => hplaced.at_unique hplace' hplace⟩
  · refine ⟨Pending.exists_register_iff, fun hnone k => ?_, fun hsome => ?_⟩
    · rw [Pending.perform_register_of_none hnone]
      exact KeyMap.get?_insert _ _ _ _
    · obtain ⟨held, hheld⟩ := Option.ne_none_iff_exists'.1 hsome
      rw [Pending.perform_register_of_some hheld]
  · rw [Pending.isSome_resolve?]
  · exact ⟨rfl, s.table.length_failAll error⟩

/-- A paused call is moved to the id of a request of the debugger, another one is offered under that
id and refused, and the first one is resumed there. -/
def moving : List Operation :=
  [.register "r" .awaitingReply, .register "s" (.resume 0), .take "s",
    .reassign "r" (.resume 0) true, .register "r" (.resume 1), .resolve (.response "r" .object)]

/-- **A call that is moved** ends where it was moved to. -/
theorem at_ended_moving :
    empty.Legal moving ∧
      (∃! place, (empty.run moving).At 0 place) ∧
      (empty.run moving).At 0 (.ended (.resumed (.response "r" .object))) ∧
      (empty.run moving).At 1 (.ended .released) ∧ (empty.run moving).table.size = 0 := by
  have legal : empty.Legal moving := by decide
  have hplace := (at_unique_place legal).1 (.register "s" (.resume 0)) (by decide) 0 rfl
  exact ⟨legal, hplace, by decide, by decide, rfl⟩

end Custody

end DebugBridge

import DebugBridge.Proofs.Bridge.Calls
import DebugBridge.Proofs.Bridge.Ledger
import Mathlib.Data.List.Range

/-!
# Bridge/Holders — every call that waits is held by one holder

A call that has been made waits in the table of the live session, is kept by the engine with an
injection, or has returned; and it is in one of these places once (`InPlace`). So a call that waits
has exactly one holder, and when a session ends nobody waits for it any more.

How a call returns at the end of a session is known as well: because the session is closed, except
for the call that itself ended the session, and for a call that waits under the id of an earlier
request that is answered: its entry is let go before the answer is found not to be sent.
-/

namespace DebugBridge

theorem Departure.count_calls (gone : List Departure) (call : CallId) :
    ((gone.map (·.place)).map (·.2)).count call =
      ((gone.filterMap (·.return?)).map (·.1)).count call +
        (gone.filterMap (·.handed?)).count call := by
  induction gone with
  | nil => rfl
  | cons d rest ih =>
    have hplace : d.place.2 = d.call := rfl
    rcases hending : d.ending? with _ | ending
    · have hreturn : d.return? = none := by rw [return?, hending]; rfl
      have hhanded : d.handed? = some d.call := by rw [handed?, hending]; rfl
      simp only [List.map_cons, List.filterMap_cons, hplace, hreturn, hhanded, List.count_cons]
      omega
    · have hreturn : d.return? = some (d.call, ending.outcome) := by rw [return?, hending]; rfl
      have hhanded : d.handed? = none := by rw [handed?, hending]; rfl
      simp only [List.map_cons, List.filterMap_cons, hplace, hreturn, hhanded, List.count_cons]
      omega

namespace World

/-- The paused calls that the engine keeps. -/
def keeping (w : World) : List CallId :=
  w.kept.filterMap (·.paused)

/-- **Every call is in one place.** -/
structure InPlace (w : World) : Prop where
  calls : (w.bridge.parked.map (·.2) ++ w.keeping ++ w.returned.map (·.1)).Perm
    (List.range w.bridge.calls)
  /-- The engine can resume whatever it keeps. -/
  named : ∀ injection ∈ w.kept, injection.paused.isSome → injection.stepId.isSome

theorem inPlace_new (config : Config) : (World.new config).InPlace where
  calls := .refl _
  named := by simp [World.new]

theorem filterMap_paused (effects : List Effect) :
    (effects.filterMap Effect.injection?).filterMap (·.paused) =
      effects.filterMap Effect.handed? := by
  rw [List.filterMap_filterMap]
  congr 1
  funext effect
  rcases effect with _ | _ | _ | _ <;> rfl

/-- An input moves calls from place to place. -/
theorem InPlace.input {w : World} (h : w.InPlace) (input : Input) :
    (w.step (.input input)).InPlace := by
  obtain ⟨parked, gone, atOnce, hmoves⟩ := w.bridge.moves_step input
  have hkept : (w.step (.input input)).kept =
      w.kept ++ (w.bridge.step input).2.filterMap Effect.injection? := rfl
  refine ⟨?_, ?_⟩
  · refine List.perm_iff_count.2 fun call => ?_
    have hbefore := h.calls.count_eq call
    have htable := (hmoves.tracks.table.map (·.2)).count_eq call
    have hreturns := (hmoves.tracks.returns.map (·.1)).count_eq call
    have hgone := Departure.count_calls gone call
    rw [returned_step, keeping, hkept, List.filterMap_append, filterMap_paused]
    rw [show (w.respond (.input input)) = w.bridge.step input from rfl, hmoves.tracks.hands]
    rw [show (w.step (.input input)).bridge = (w.bridge.step input).1 from rfl]
    have hown : (List.range (w.bridge.step input).1.calls).count call =
        (List.range w.bridge.calls).count call + (parked.map (·.2)).count call +
          (atOnce.map (·.1)).count call := by
      rcases hmoves.own with ⟨hcalls, rfl, rfl⟩ | ⟨hcalls, hcall⟩
      · rw [hcalls]
        rfl
      · rw [hcalls, List.range_succ, List.count_append, ← hcall, List.count_append]
        omega
    rw [hown]
    simp only [List.map_append, List.count_append, keeping] at hbefore htable hreturns ⊢
    omega
  · intro injection hmem
    rw [hkept] at hmem
    rcases List.mem_append.1 hmem with hmem | hmem
    · exact h.named injection hmem
    · exact hmoves.tracks.named injection hmem

/-- What the engine does with an injection that it keeps. -/
theorem respond_of_release? {w : World} {m : Move} {injection : CodeInjection}
    (h : m.release? = some injection) :
    ∃ ending, w.respond m = (w.bridge, (injection.settle ending).toList.map Wake.effect) := by
  rcases m with input | kept | kept | call
  case resume =>
    obtain rfl := Option.some.inj h
    exact ⟨_, rfl⟩
  case letGo =>
    obtain rfl := Option.some.inj h
    exact ⟨_, rfl⟩
  all_goals cases h

/-- The paused call returns, and nobody else. -/
theorem calls_of_settle {injection : CodeInjection}
    (h : injection.paused.isSome → injection.stepId.isSome) (ending : RequestId → Ending) :
    ((((injection.settle ending).toList.map Wake.effect).filterMap Effect.return?).map (·.1)) =
      injection.paused.toList := by
  rw [Effect.filterMap_return?_wakes, CodeInjection.settle]
  rcases hpaused : injection.paused with _ | call
  · rcases injection.stepId <;> rfl
  · rcases hstep : injection.stepId with _ | id
    · rw [hpaused, hstep] at h
      cases h rfl
    · rfl

/-- The engine is done with an injection: its call returns. -/
theorem InPlace.release {w : World} {m : Move} {injection : CodeInjection} (h : w.InPlace)
    (hm : m.release? = some injection) (hkept : injection ∈ w.kept) : (w.step m).InPlace := by
  obtain ⟨ending, hrespond⟩ := respond_of_release? (w := w) hm
  have hperm := List.perm_cons_erase hkept
  have hstep : (w.step m).kept = w.kept.erase injection := by
    rw [step, hrespond, hm]
    simp only [Option.elim_some, Effect.filterMap_injection?_wakes, List.append_nil]
  have hbridge : (w.step m).bridge = w.bridge := by rw [step, hrespond]
  refine ⟨?_, fun other hmem => h.named other ?_⟩
  · refine List.perm_iff_count.2 fun call => ?_
    have hbefore := h.calls.count_eq call
    have hkeeping := (hperm.filterMap (·.paused)).count_eq call
    rw [List.filterMap_cons] at hkeeping
    rw [returned_step, hrespond, hbridge, keeping, hstep, List.map_append,
      calls_of_settle (h.named injection hkept)]
    simp only [keeping, List.count_append] at hbefore ⊢
    rcases hpaused : injection.paused with _ | paused
    · rw [hpaused] at hkeeping
      simp only [Option.toList_none, List.count_nil] at hkeeping ⊢
      omega
    · rw [hpaused] at hkeeping
      simp only [Option.toList_some, List.count_cons, List.count_nil] at hkeeping ⊢
      omega
  · rw [hstep] at hmem
    exact List.mem_of_mem_erase hmem

theorem InPlace.step {w : World} {m : Move} (allowed : w.Allows m) (h : w.InPlace) :
    (w.step m).InPlace := by
  rcases m with input | injection | injection | call
  case input => exact h.input input
  case resume => exact h.release rfl (allowed.release injection rfl)
  case letGo => exact h.release rfl (allowed.release injection rfl)
  case cancel =>
    have hkept : (w.step (.cancel call)).kept = w.kept := List.append_nil _
    have hreturned : (w.step (.cancel call)).returned = w.returned := by
      rw [returned_step]
      exact List.append_nil _
    refine ⟨?_, hkept ▸ h.named⟩
    rw [keeping, hkept, hreturned]
    exact h.calls

theorem Reachable.inPlace {w : World} (h : w.Reachable) : w.InPlace :=
  h.invariant inPlace_new InPlace.step

/-- No call is in two places, or in one place twice. -/
theorem InPlace.nodup {w : World} (h : w.InPlace) :
    (w.bridge.parked.map (·.2) ++ w.keeping ++ w.returned.map (·.1)).Nodup :=
  h.calls.nodup_iff.2 List.nodup_range

/-! ## Holders -/

/-- What a call waits with. -/
inductive Holder where
  /-- The entry of the table of the live session under an id. -/
  | entry (id : RequestId)
  /-- The injection that the engine keeps at a place. -/
  | kept (index : Nat)

/-- Whether a call waits with a holder. -/
def Holds (w : World) : Holder → CallId → Prop
  | .entry id, call => ∃ s ∈ w.bridge.session, s.pending.get? id = some (.resume call)
  | .kept index, call => ∃ injection ∈ w.kept[index]?, injection.paused = some call

/-- A holder holds one call. -/
theorem Holds.unique {w : World} {holder : Holder} {call other : CallId}
    (h : w.Holds holder call) (h' : w.Holds holder other) : call = other := by
  rcases holder with id | index
  · obtain ⟨s, hs, hget⟩ := h
    obtain ⟨t, ht, hget'⟩ := h'
    obtain rfl := Option.some.inj (hs.symm.trans ht)
    exact Continuation.resume.inj (Option.some.inj (hget.symm.trans hget'))
  · obtain ⟨injection, hinjection, hpaused⟩ := h
    obtain ⟨other, hother, hpaused'⟩ := h'
    obtain rfl := Option.some.inj (hinjection.symm.trans hother)
    exact Option.some.inj (hpaused.symm.trans hpaused')

theorem holds_entry_iff {w : World} {id : RequestId} {call : CallId} :
    w.Holds (.entry id) call ↔ (id, call) ∈ w.bridge.parked := by
  rw [Holds, Bridge.parked]
  rcases w.bridge.session with _ | s
  · simp
  · simp [Pending.mem_calls]

/-- Elements of a list that give one value to a list without repetition are at one place. -/
theorem index_eq_of_nodup {α β : Type} {l : List α} {f : α → Option β}
    (h : (l.filterMap f).Nodup) {i j : Nat} {a b : α} {value : β} (ha : l[i]? = some a)
    (hb : l[j]? = some b) (hfa : f a = some value) (hfb : f b = some value) : i = j := by
  have hpair := List.pairwise_iff_getElem.1 (List.pairwise_filterMap.1 h)
  obtain ⟨hi, rfl⟩ := List.getElem?_eq_some_iff.1 ha
  obtain ⟨hj, rfl⟩ := List.getElem?_eq_some_iff.1 hb
  rcases Nat.lt_trichotomy i j with hlt | heq | hlt
  · exact absurd rfl (hpair i j hi hj hlt value hfa value hfb)
  · exact heq
  · exact absurd rfl (hpair j i hj hi hlt value hfb value hfa)

/-- **A call that waits has exactly one holder.** -/
theorem InPlace.existsUnique_holder {w : World} (h : w.InPlace) {call : CallId}
    (waits : w.Waits call) : ∃! holder, w.Holds holder call := by
  obtain ⟨hmade, hreturned, -⟩ := waits
  obtain ⟨hplaces, -, -⟩ := List.nodup_append.1 h.nodup
  obtain ⟨hparked, hkeeping, hapart⟩ := List.nodup_append.1 hplaces
  have hkept {index : Nat} (hholds : w.Holds (.kept index) call) : call ∈ w.keeping := by
    obtain ⟨injection, hinjection, hpaused⟩ := hholds
    exact List.mem_filterMap.2 ⟨injection, List.mem_of_getElem? hinjection, hpaused⟩
  have hentry {id : RequestId} (hholds : w.Holds (.entry id) call) :
      call ∈ w.bridge.parked.map (·.2) :=
    List.mem_map_of_mem (f := (·.2)) (holds_entry_iff.1 hholds)
  have hexists : ∃ holder, w.Holds holder call := by
    have hmem := h.calls.mem_iff.2 (List.mem_range.2 hmade)
    rcases List.mem_append.1 hmem with hmem | hmem
    · rcases List.mem_append.1 hmem with hmem | hmem
      · obtain ⟨⟨id, _⟩, hplace, rfl⟩ := List.mem_map.1 hmem
        exact ⟨.entry id, holds_entry_iff.2 hplace⟩
      · obtain ⟨injection, hinjection, hpaused⟩ := List.mem_filterMap.1 hmem
        obtain ⟨index, hindex⟩ := List.mem_iff_getElem?.1 hinjection
        exact ⟨.kept index, injection, hindex, hpaused⟩
    · exact absurd hmem hreturned
  obtain ⟨holder, hholds⟩ := hexists
  refine ⟨holder, hholds, fun other hother => ?_⟩
  rcases holder with id | i <;> rcases other with id' | j
  · have hplace := List.inj_on_of_nodup_map hparked (holds_entry_iff.1 hother)
      (holds_entry_iff.1 hholds) rfl
    exact congrArg Holder.entry (congrArg Prod.fst hplace)
  · exact absurd rfl (hapart call (hentry hholds) call (hkept hother))
  · exact absurd rfl (hapart call (hentry hother) call (hkept hholds))
  · obtain ⟨a, ha, hfa⟩ := hholds
    obtain ⟨b, hb, hfb⟩ := hother
    exact congrArg Holder.kept (index_eq_of_nodup hkeeping hb ha hfb hfa)

/-- The id of the earlier request of the live session that a move answers. -/
def answered? (w : World) : Move → Option RequestId
  | .input input => w.bridge.answered? input
  | _ => none

/-! ## The end of a session -/

theorem InPlace.nodup_parked {w : World} (h : w.InPlace) : (w.bridge.parked.map (·.2)).Nodup :=
  (List.nodup_append.1 (List.nodup_append.1 h.nodup).1).1

theorem InPlace.lt_calls {w : World} (h : w.InPlace) :
    ∀ place ∈ w.bridge.parked, place.2 < w.bridge.calls := fun _ hplace =>
  List.mem_range.1 (h.calls.mem_iff.1 (List.mem_append_left _ (List.mem_append_left _
    (List.mem_map_of_mem hplace))))

/-- A move that ends the session is an input of the bridge. -/
theorem exists_input_of_ended {w : World} {m : Move} (live : w.bridge.session.isSome)
    (ended : (w.step m).bridge.session = none) : ∃ input, m = .input input := by
  rcases m with input | injection | injection | call
  case input => exact ⟨input, rfl⟩
  all_goals
    have hsame : w.bridge.session = none := ended
    rw [hsame] at live
    cases live

/-- **How a call returns when the session ends**, and that it does. -/
theorem InPlace.returns_of_ended {w : World} (h : w.InPlace) {m : Move}
    (live : w.bridge.session.isSome) (ended : (w.step m).bridge.session = none) {id : RequestId}
    {call : CallId} (holds : w.Holds (.entry id) call) (outcome : Outcome) :
    (call, outcome) ∈ (w.respond m).2.filterMap Effect.return? ↔
      outcome = if w.answered? m = some id then .failed .continuationDropped
        else .failed .sessionClosed := by
  obtain ⟨input, rfl⟩ := exists_input_of_ended live ended
  obtain ⟨parked, gone, atOnce, hmoves⟩ := w.bridge.moves_step input
  have hparked := holds_entry_iff.1 holds
  have hafter : (w.bridge.step input).1.session = none := ended
  have hnone : (w.bridge.step input).1.parked = [] := by rw [Bridge.parked, hafter]; rfl
  rcases hmoves.stays_or_departs hparked with hstays | ⟨d, hd, hplace⟩
  · rw [hnone] at hstays
    cases hstays
  obtain ⟨rfl, rfl⟩ := Prod.mk.inj hplace
  have hending : d.ending? = if w.answered? (.input input) = some d.id then some .released
      else some (.failed .sessionClosed) := by
    split
    · next hanswered =>
      have hgone := hmoves.answered d.id hanswered d.call hparked
      have hsame := List.inj_on_of_nodup_map (hmoves.nodup_gone h.nodup_parked h.lt_calls)
        hgone hd rfl
      exact (congrArg Departure.ending? hsame).symm
    · next hanswered =>
      have hlawful := (hmoves.lawful d hd).2
      have hdisconnected : (w.bridge.step input).1.isConnected = false := by
        rw [Bridge.isConnected, hafter]
        rfl
      rcases hreason : d.ending? with _ | response | fault | _
      · rw [hreason] at hlawful
        exact absurd hlawful (by simp [hdisconnected])
      · rw [hreason] at hlawful
        exact absurd hlawful.2 (by simp [hdisconnected])
      · rw [hreason] at hlawful
        rw [hlawful.1]
      · rw [hreason] at hlawful
        rcases hlawful with hsome | ⟨-, hconnected⟩
        · exact absurd hsome hanswered
        · exact absurd hconnected (by simp [hdisconnected])
  refine (hmoves.returns_iff h.nodup_parked h.lt_calls hd outcome).trans ?_
  rw [hending]
  split
  · exact ⟨by rintro ⟨_, ⟨⟩, rfl⟩; rfl, by rintro rfl; exact ⟨_, rfl, rfl⟩⟩
  · exact ⟨by rintro ⟨_, ⟨⟩, rfl⟩; rfl, by rintro rfl; exact ⟨_, rfl, rfl⟩⟩

/-- The call that itself ends the session returns with the reason. -/
theorem own_of_ended {w : World} {m : Move} (live : w.bridge.session.isSome)
    (ended : (w.step m).bridge.session = none) (made : m.made?.isSome) :
    ∃ fault : BridgeError, fault.OfSending ∧
      (w.bridge.calls, .failed fault) ∈ (w.respond m).2.filterMap Effect.return? := by
  obtain ⟨input, rfl⟩ := exists_input_of_ended live ended
  obtain ⟨parked, gone, atOnce, hmoves⟩ := w.bridge.moves_step input
  obtain ⟨id, hid⟩ := Option.isSome_iff_exists.1 made
  have hcalls := Bridge.calls_of_made? (b := w.bridge) hid
  obtain ⟨rfl, hfaults⟩ := hmoves.ended live ended
  rcases hmoves.own with ⟨hsame, -, -⟩ | ⟨-, hown⟩
  · exact absurd (hsame.symm.trans hcalls) (Nat.ne_of_lt (Nat.lt_succ_self _))
  · have hmem : w.bridge.calls ∈ atOnce.map (·.1) := by
      have hown : atOnce.map (·.1) = [w.bridge.calls] := hown
      rw [hown]
      exact List.mem_singleton_self _
    obtain ⟨⟨call, outcome⟩, hreturned, rfl⟩ := List.mem_map.1 hmem
    obtain ⟨fault, hfault, rfl⟩ := hfaults _ hreturned
    exact ⟨fault, hfault, hmoves.tracks.returns.mem_iff.2 (List.mem_append_right _ hreturned)⟩

theorem session_disconnect (w : World) : (w.step (.input .disconnect)).bridge.session = none :=
  w.bridge.session_disconnect

theorem answered?_disconnect (w : World) (id : RequestId) :
    w.answered? (.input .disconnect) ≠ some id := by
  rintro ⟨⟩

/-! ## An id used again

The debugger asks for storage, answers its own request, and under the same id asks to run up to a
program counter (`reusedId`). When a step gets there, it waits under the id for which the engine
still reads storage. -/

/-- A step at the program counter up to which `reusedId` runs. -/
def targetStep : Step :=
  ⟨.normalize "", 7, "", false, .object⟩

def reachTarget : Move :=
  .input (.report (.step targetStep) "a")

/-- The engine is done with the read. -/
def lateRead : Move :=
  .input (.storageRead openRead none)

theorem allows_lateRead {w : World} (reads : w.reads = [openRead]) : w.Allows lateRead where
  read := by
    rintro _ ⟨⟩
    rw [reads]
    exact List.mem_singleton_self _
  offer := by rintro _ ⟨⟩
  release := by rintro _ ⟨⟩

/-- The link takes no more frames. -/
def deafen : Move :=
  .input (.linkDeaf 1)

/-- The first call waits under the id of the read, in a session whose link takes frames or not. -/
structure ParkedOverRead (w : World) (accepting : Bool) : Prop where
  session : ∃ s, w.bridge.session? 1 = some s ∧ s.accepting = accepting ∧
    s.pending.get? "x" = some (.resume 0)
  reads : w.reads = [openRead]
  kept : w.kept = []
  handed : w.handed = []
  waits : w.Waits 0

namespace ParkedOverRead

variable {w : World} {accepting : Bool}

theorem holds (h : w.ParkedOverRead accepting) : w.Holds (.entry "x") 0 := by
  obtain ⟨s, hs, -, hget⟩ := h.session
  exact ⟨s, (Bridge.session?_eq_some_iff.1 hs).1, hget⟩

theorem live (h : w.ParkedOverRead accepting) : w.bridge.session.isSome := by
  obtain ⟨s, hs, -, -⟩ := h.session
  rw [(Bridge.session?_eq_some_iff.1 hs).1]
  rfl

theorem allows (h : w.ParkedOverRead accepting) : w.Allows lateRead :=
  allows_lateRead h.reads

theorem answered (h : w.ParkedOverRead accepting) : w.answered? lateRead = some "x" := by
  obtain ⟨s, hs, -, -⟩ := h.session
  exact congrArg (Option.map fun _ => "x") hs

theorem ended (h : w.ParkedOverRead false) : (w.step lateRead).bridge.session = none := by
  obtain ⟨s, hs, hdeaf, -⟩ := h.session
  exact Bridge.answer_of_deaf hs hdeaf "x" (Reply.storage none)

theorem deafen (h : w.ParkedOverRead accepting) : (w.step deafen).ParkedOverRead false := by
  obtain ⟨⟨s, hs, -, hget⟩, hreads, hkept, hhanded, hmade, hreturned, hcancelled⟩ := h
  have hdeaf : w.bridge.linkDeaf 1 =
      { w.bridge with session := some { s with accepting := false } } := by
    rw [Bridge.linkDeaf, hs]
  have hid := (Bridge.session?_eq_some_iff.1 hs).2
  have hrespond : w.respond World.deafen = (w.bridge.linkDeaf 1, []) := rfl
  rw [hdeaf] at hrespond
  refine ⟨⟨{ s with accepting := false }, ?_, rfl, hget⟩, ?_, ?_, ?_, ?_, ?_, ?_⟩
  · rw [bridge_step, hrespond]
    exact Bridge.session?_eq_some_iff.2 ⟨rfl, hid⟩
  · rw [reads_step, hrespond, hreads]
    rfl
  · rw [kept_step, hrespond, hkept]
    rfl
  · rw [handed_step, hrespond, hhanded]
    rfl
  · rw [bridge_step, hrespond]
    exact hmade
  · rw [returned_step, hrespond]
    simpa using hreturned
  · rw [cancelled_step]
    simpa [World.deafen, Move.cancelled?] using hcancelled

end ParkedOverRead

theorem exists_encode_targetStep : ∃ value, (targetStep.content []).encode = .ok value :=
  ⟨_, by cbv⟩

theorem decide_targetStep {state : DebuggerState} (h : state.runUntil = some ⟨"x", 7⟩)
    (skipGas : Bool) (mode : ScopeMode) :
    Policy.decide state skipGas mode targetStep = .runUntilHit "x" := by
  simp [Policy.decide, targetStep, h]

/-- A step that reaches the target of a run is parked under its id. -/
theorem parkedOverRead_of_target {w : World} {s : Session} (hs : w.bridge.session = some s)
    (hid : s.id = 1) (haccepting : s.accepting = true) (hrun : s.state.runUntil = some ⟨"x", 7⟩)
    (hget : s.pending.get? "x" = some .awaitingReply) (reads : w.reads = [openRead])
    (kept : w.kept = []) (handed : w.handed = []) (returned : w.returned = [])
    (cancelled : w.cancelled = []) (calls : w.bridge.calls = 0) :
    (w.step reachTarget).ParkedOverRead true := by
  obtain ⟨value, hvalue⟩ := exists_encode_targetStep
  obtain ⟨frame, hframe⟩ := s.frame_of_accepting haccepting (e := .response "x" _) hvalue
  have hreport := Bridge.report_target hs (decide_targetStep hrun _ _) hframe "a"
  have hrespond : w.respond reachTarget = w.bridge.report (.step targetStep) "a" := rfl
  rw [hreport, hget] at hrespond
  refine ⟨⟨{ s with
    state := { s.state with runUntil := none }
    pending := ⟨s.pending.entries.insert "x" (.resume w.bridge.calls)⟩ },
    ?_, haccepting, ?_⟩, ?_, ?_, ?_, ?_, ?_, ?_⟩
  · rw [bridge_step, hrespond]
    exact Bridge.session?_eq_some_iff.2 ⟨rfl, hid⟩
  · rw [Pending.get?_mk, KeyMap.get?_insert, if_pos rfl, calls]
  · rw [reads_step, hrespond, reads]
    rfl
  · rw [kept_step, hrespond, kept]
    rfl
  · rw [handed_step, hrespond, handed]
    rfl
  · rw [bridge_step, hrespond]
    exact Nat.succ_pos _
  · rw [returned_step, hrespond, returned]
    exact List.not_mem_nil
  · rw [cancelled_step, cancelled]
    exact List.not_mem_nil

theorem parkedOverRead :
    (run (.new .default) (reusedId ++ [reachTarget])).ParkedOverRead true := by
  obtain ⟨⟨s, hs, hid, haccepting, hrun, hget, -⟩, -, reads, kept, handed, returned, cancelled,
    calls⟩ := run_reusedId
  rw [run_concat]
  exact parkedOverRead_of_target hs hid haccepting hrun hget reads kept handed returned cancelled
    calls

theorem legal_parkedOverRead : Legal (.new .default) (reusedId ++ [reachTarget]) :=
  along_append.2 ⟨legal_reusedId, allows_of_free rfl rfl rfl, trivial⟩

theorem freshIds_parkedOverRead : FreshIds (.new .default) (reusedId ++ [reachTarget]) := by
  refine along_append.2 ⟨⟨makesNew_of_none rfl, makesNew_of_none rfl, makesNew_of_none rfl,
    makesNew_of_none rfl, makesNew_of_none rfl, trivial⟩, ?_, trivial⟩
  obtain ⟨⟨s, hs, -, -, hrun, -, hget⟩, -⟩ := run_reusedId
  rintro _ ⟨⟩ t ht
  obtain rfl := Option.some.inj (hs.symm.trans ht)
  refine ⟨hget, ?_⟩
  rw [hrun]
  rintro _ ⟨⟩
  decide

/-! ## No call hangs -/

/-- **No call hangs.** A call that waits has exactly one holder, and no holder holds two. Without a
session all that wait are held by the engine. With the end of a session, in whatever way it comes,
every call that waits in its table returns: because the session is closed, unless the end comes with
an answer to an earlier request under the id where the call waits; and so does the call that itself
ends the session, with the reason why nothing could be sent. -/
theorem waiting_calls_held (config : Config) {moves : List Move}
    (legal : Legal (.new config) moves) :
    let w := run (.new config) moves
    (∀ call, w.Waits call → ∃! holder, w.Holds holder call) ∧
    (∀ holder call other, w.Holds holder call → w.Holds holder other → call = other) ∧
    (w.bridge.session = none → ∀ call, w.Waits call → ∃ index, w.Holds (.kept index) call) ∧
    (∀ m, w.bridge.session.isSome → (w.step m).bridge.session = none →
      (∀ id call, w.Holds (.entry id) call → ∀ outcome,
        (call, outcome) ∈ (w.respond m).2.filterMap Effect.return? ↔
          outcome = if w.answered? m = some id then .failed .continuationDropped
            else .failed .sessionClosed) ∧
      (m.made?.isSome → ∃ fault : BridgeError, fault.OfSending ∧
        (w.bridge.calls, .failed fault) ∈ (w.respond m).2.filterMap Effect.return?)) := by
  intro w
  have inPlace : w.InPlace := legal.invariant InPlace.step (inPlace_new config)
  refine ⟨fun call => inPlace.existsUnique_holder, fun _ _ _ => Holds.unique, ?_, ?_⟩
  · intro hnone call hwaits
    obtain ⟨holder, hholds, -⟩ := inPlace.existsUnique_holder hwaits
    rcases holder with id | index
    · obtain ⟨s, hs, -⟩ := hholds
      rw [hnone] at hs
      cases hs
    · exact ⟨index, hholds⟩
  · intro m live ended
    exact ⟨fun id call holds => inPlace.returns_of_ended live ended holds, own_of_ended live ended⟩

theorem waiting_calls_held_parkedOverRead :
    let w := run (.new .default) (reusedId ++ [reachTarget])
    w.Waits 0 ∧ (∃! holder, w.Holds holder 0) ∧ ∀ outcome,
      (0, outcome) ∈ (w.respond (.input .disconnect)).2.filterMap Effect.return? ↔
        outcome = .failed .sessionClosed := by
  intro w
  have parked : w.ParkedOverRead true := parkedOverRead
  obtain ⟨holders, -, -, closing⟩ := waiting_calls_held .default legal_parkedOverRead
  refine ⟨parked.waits, holders 0 parked.waits, fun outcome => ?_⟩
  have returns := (closing (.input .disconnect) parked.live (session_disconnect w)).1 "x" 0
    parked.holds outcome
  rwa [if_neg (answered?_disconnect w "x")] at returns

/-- **A call that does not return because its session is closed**, although it waits in the table
when the session ends: the session ends as the answer to the read cannot be sent, and by then the
call is let go. -/
theorem let_go_with_session :
    let moves := reusedId ++ [reachTarget] ++ [deafen]
    let w := run (.new .default) moves
    Legal (.new .default) (moves ++ [lateRead]) ∧ FreshIds (.new .default) (moves ++ [lateRead]) ∧
    w.Waits 0 ∧ w.kept = [] ∧ w.bridge.session.isSome ∧
    (w.step lateRead).bridge.session = none ∧
    (0, .failed .continuationDropped) ∈ (w.respond lateRead).2.filterMap Effect.return? ∧
    (0, .failed .sessionClosed) ∉ (w.respond lateRead).2.filterMap Effect.return? := by
  intro moves w
  have parked : w.ParkedOverRead false := by
    rw [show w = _ from run_concat _ _ _]
    exact parkedOverRead.deafen
  have legal : Legal (.new .default) moves :=
    along_append.2 ⟨legal_parkedOverRead, allows_of_free rfl rfl rfl, trivial⟩
  have fresh : FreshIds (.new .default) moves :=
    along_append.2 ⟨freshIds_parkedOverRead, makesNew_of_none rfl, trivial⟩
  have inPlace : w.InPlace := legal.invariant InPlace.step (inPlace_new _)
  have hreturns := inPlace.returns_of_ended parked.live parked.ended parked.holds
  rw [if_pos parked.answered] at hreturns
  refine ⟨along_append.2 ⟨legal, parked.allows, trivial⟩,
    along_append.2 ⟨fresh, makesNew_of_none rfl, trivial⟩, parked.waits, parked.kept, parked.live,
    parked.ended, (hreturns _).2 rfl, fun h => ?_⟩
  cases (hreturns _).1 h

end World

end DebugBridge

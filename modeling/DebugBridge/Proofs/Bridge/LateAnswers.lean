import DebugBridge.Proofs.Bridge.Holders
import DebugBridge.Proofs.Bridge.Target

/-!
# Bridge/LateAnswers — what makes a paused call be let go

A call that waits in the table is to be resumed, or to fail with the session. There is one thing
that lets go of it instead, and it is the only one (`abandoned_iff`): an answer of the debugger's
request that goes out late, when the engine is done with it, drops whatever is pending under its id.
By then this may be a step at the target of a run, if the debugger has answered its own request and
used the id again.
-/

namespace DebugBridge

namespace World

/-- The id under which a move answers a request of the live session when the engine is done. -/
def late? (w : World) : Move → Option RequestId
  | .input input => w.bridge.late? input
  | _ => none

theorem clearTarget_new (config : Config) : (World.new config).bridge.ClearTarget := by
  rintro _ ⟨⟩

theorem clearTarget_step {w : World} {m : Move} (hnew : w.MakesNew m)
    (h : w.bridge.ClearTarget) : (w.step m).bridge.ClearTarget := by
  rcases m with input | _ | _ | _
  case input =>
    refine h.step input fun id hid s hs hdue => ?_
    obtain ⟨cursor, hcursor, heq⟩ := Session.mem_dues.1 hdue
    exact (hnew id hid s hs).2 cursor hcursor heq
  all_goals exact h

/-! ## What returns -/

/-- What has returned after a run has returned before it or in one of its moves. -/
theorem mem_returned_run {w : World} {moves : List Move} {returned : CallId × Outcome} :
    returned ∈ (w.run moves).returned ↔
      returned ∈ w.returned ∨ ∃ first m rest, moves = first ++ m :: rest ∧
        returned ∈ ((w.run first).respond m).2.filterMap Effect.return? :=
  mem_log_run

/-- What the engine was handed it was handed once for all. -/
theorem handed_subset_run (w : World) (moves : List Move) : w.handed ⊆ (w.run moves).handed := by
  induction moves generalizing w with
  | nil => exact fun call hcall => hcall
  | cons m rest ih =>
    intro call hcall
    refine ih (w.step m) ?_
    rw [handed_step]
    exact List.mem_append_left _ hcall

/-- Whatever the engine keeps it was handed. -/
theorem keeping_subset_step {w : World} {m : Move} (_ : w.Allows m)
    (h : w.keeping ⊆ w.handed) : (w.step m).keeping ⊆ (w.step m).handed := by
  intro call hcall
  obtain ⟨injection, hinjection, hpaused⟩ := List.mem_filterMap.1 hcall
  rw [handed_step, ← filterMap_paused]
  rcases List.mem_append.1 hinjection with hbefore | hnew
  · have hkept : injection ∈ w.kept := by
      rcases hrelease : m.release? with _ | released
      · rw [hrelease] at hbefore
        exact hbefore
      · rw [hrelease] at hbefore
        exact List.mem_of_mem_erase hbefore
    exact List.mem_append_left _ (h (List.mem_filterMap.2 ⟨injection, hkept, hpaused⟩))
  · exact List.mem_append_right _ (List.mem_filterMap.2 ⟨injection, hnew, hpaused⟩)

theorem not_dropped_of_atOnce {outcome : Outcome} (h : outcome.AtOnce) :
    outcome ≠ .failed .continuationDropped := by
  rintro rfl
  rcases h with h | h | ⟨fault, h, hfault⟩
  · cases h
  · cases h
  · obtain rfl := Outcome.failed.inj h
    rcases hfault with (hsending | ⟨error, hsending⟩) | ⟨id, hduplicate⟩
    · cases hsending
    · cases hsending
    · cases hduplicate

/-- The departures in which a call is let go. -/
theorem released_of_dropped {b : Bridge} {answered? : Option RequestId} {after : Bridge}
    {d : Departure} (hlawful : d.Lawful b answered? after) {call : CallId}
    (h : d.return? = some (call, .failed .continuationDropped)) :
    d.call = call ∧ d.ending? = some .released := by
  obtain ⟨ending, hending, heq⟩ := Option.map_eq_some_iff.1 h
  obtain ⟨hcall, houtcome⟩ := Prod.mk.inj heq
  have hreason := hlawful.2
  rw [hending] at hreason
  rcases ending with response | fault | _
  · cases houtcome
  · obtain ⟨rfl, -⟩ := hreason
    cases houtcome
  · exact ⟨hcall, hending⟩

/-- **A move lets go of a call that the engine was never handed** exactly when it is a late answer
to the id under which the call waits. -/
theorem let_go_iff {w : World} (hclear : w.bridge.ClearTarget) (hkept : w.keeping ⊆ w.handed)
    {m : Move} (allowed : w.Allows m) {call : CallId} (hnever : call ∉ w.handed) :
    (call, .failed .continuationDropped) ∈ (w.respond m).2.filterMap Effect.return? ↔
      ∃ id, w.late? m = some id ∧ w.Holds (.entry id) call := by
  rcases m with input | injection | injection | cancelled
  case input =>
    obtain ⟨parked, gone, atOnce, hmoves⟩ := w.bridge.moves_step input
    refine (hmoves.tracks.returns.mem_iff.trans List.mem_append).trans ⟨?_, ?_⟩
    · rintro (hmem | hmem)
      · obtain ⟨d, hd, hreturn⟩ := List.mem_filterMap.1 hmem
        obtain ⟨rfl, hending⟩ := released_of_dropped (hmoves.lawful d hd) hreturn
        exact ⟨d.id, hmoves.late_of_released hclear hd hending,
          holds_entry_iff.2 (hmoves.lawful d hd).1⟩
      · exact absurd rfl (not_dropped_of_atOnce (hmoves.outcome _ hmem))
    · rintro ⟨id, hlate, hholds⟩
      have hgone := hmoves.answered id (Bridge.answered?_of_late? hlate) call
        (holds_entry_iff.1 hholds)
      exact Or.inl (List.mem_filterMap.2 ⟨_, hgone, rfl⟩)
  case resume =>
    refine ⟨fun hmem => ?_, by rintro ⟨id, ⟨⟩, -⟩⟩
    rw [respond, Effect.filterMap_return?_wakes] at hmem
    obtain ⟨wake, hwake, heq⟩ := List.mem_map.1 hmem
    rw [CodeInjection.resume, CodeInjection.settle] at hwake
    split at hwake
    · rw [Option.toList_some, List.mem_singleton] at hwake
      subst hwake
      cases (Prod.mk.inj heq).2
    · cases hwake
  case letGo =>
    refine ⟨fun hmem => absurd ?_ hnever, by rintro ⟨id, ⟨⟩, -⟩⟩
    rw [respond, Effect.filterMap_return?_wakes] at hmem
    obtain ⟨wake, hwake, heq⟩ := List.mem_map.1 hmem
    rw [CodeInjection.drop, CodeInjection.settle] at hwake
    split at hwake
    · next paused hstep hpaused =>
      rw [Option.toList_some, List.mem_singleton] at hwake
      subst hwake
      obtain ⟨rfl, -⟩ := Prod.mk.inj heq
      exact hkept (List.mem_filterMap.2 ⟨injection, allowed.release injection rfl, hpaused⟩)
    · cases hwake
  case cancel =>
    refine ⟨fun hmem => ?_, by rintro ⟨id, ⟨⟩, -⟩⟩
    cases hmem

/-- **How a call leaves the table**: it is resumed by a response to its id, it fails with the
session, it is handed to the engine, or it is let go by a late answer to its id. -/
theorem stays_or_leaves {w : World} (hclear : w.bridge.ClearTarget) (m : Move) {id : RequestId}
    {call : CallId} (holds : w.Holds (.entry id) call) :
    (w.step m).Holds (.entry id) call ∨
      (∃ response : Envelope, response.id = id ∧
        (call, .resumed response) ∈ (w.respond m).2.filterMap Effect.return?) ∨
      ((call, .failed .sessionClosed) ∈ (w.respond m).2.filterMap Effect.return? ∧
        (w.step m).bridge.session = none) ∨
      call ∈ (w.respond m).2.filterMap Effect.handed? ∨
      (w.late? m = some id ∧
        (call, .failed .continuationDropped) ∈ (w.respond m).2.filterMap Effect.return?) := by
  rcases m with input | _ | _ | _
  case input =>
    obtain ⟨parked, gone, atOnce, hmoves⟩ := w.bridge.moves_step input
    have hreturns {returned : CallId × Outcome} (h : returned ∈ gone.filterMap (·.return?)) :
        returned ∈ (w.respond (.input input)).2.filterMap Effect.return? :=
      hmoves.tracks.returns.mem_iff.2 (List.mem_append_left _ h)
    rcases hmoves.stays_or_departs (holds_entry_iff.1 holds) with hstays | ⟨d, hd, hplace⟩
    · exact Or.inl (holds_entry_iff.2 hstays)
    obtain ⟨rfl, rfl⟩ := Prod.mk.inj hplace
    have hlawful := (hmoves.lawful d hd).2
    rcases hending : d.ending? with _ | response | fault | _
    · refine Or.inr (Or.inr (Or.inr (Or.inl ?_)))
      have hhands : (w.respond (.input input)).2.filterMap Effect.handed? =
        gone.filterMap (·.handed?) := hmoves.tracks.hands
      rw [hhands]
      exact List.mem_filterMap.2 ⟨d, hd, by rw [Departure.handed?, hending]; rfl⟩
    · rw [hending] at hlawful
      exact Or.inr (Or.inl ⟨response, hlawful.1, hreturns (List.mem_filterMap.2
        ⟨d, hd, by rw [Departure.return?, hending]; rfl⟩)⟩)
    · rw [hending] at hlawful
      obtain ⟨rfl, hended⟩ := hlawful
      exact Or.inr (Or.inr (Or.inl ⟨hreturns (List.mem_filterMap.2
        ⟨d, hd, by rw [Departure.return?, hending]; rfl⟩), hended⟩))
    · exact Or.inr (Or.inr (Or.inr (Or.inr ⟨hmoves.late_of_released hclear hd hending,
        hreturns (List.mem_filterMap.2 ⟨d, hd, by rw [Departure.return?, hending]; rfl⟩)⟩)))
  all_goals exact Or.inl holds

/-- **A paused call is let go by a late answer, and by nothing else.** In a run in which the ids
that the bridge makes are new, a call that the engine was never handed is let go exactly when the
engine is done with a request of the debugger under whose id the call waits by then. In every move
of the run a call that waits in the table stays there, or leaves it in one of four ways. -/
theorem abandoned_iff (config : Config) {moves : List Move} (legal : Legal (.new config) moves)
    (fresh : FreshIds (.new config) moves) :
    (∀ call, call ∉ (run (.new config) moves).handed →
      ((call, .failed .continuationDropped) ∈ (run (.new config) moves).returned ↔
        ∃ first m rest id, moves = first ++ m :: rest ∧
          (run (.new config) first).late? m = some id ∧
          (run (.new config) first).Holds (.entry id) call)) ∧
    (∀ first m rest, moves = first ++ m :: rest → ∀ id call,
      let w := run (.new config) first
      w.Holds (.entry id) call →
        (w.step m).Holds (.entry id) call ∨
        (∃ response : Envelope, response.id = id ∧
          (call, .resumed response) ∈ (w.respond m).2.filterMap Effect.return?) ∨
        ((call, .failed .sessionClosed) ∈ (w.respond m).2.filterMap Effect.return? ∧
          (w.step m).bridge.session = none) ∨
        call ∈ (w.respond m).2.filterMap Effect.handed? ∨
        (w.late? m = some id ∧
          (call, .failed .continuationDropped) ∈ (w.respond m).2.filterMap Effect.return?)) := by
  have hclear {first : List Move} {m : Move} {rest : List Move} (h : moves = first ++ m :: rest) :
      (run (.new config) first).bridge.ClearTarget :=
    (along_append.1 (h ▸ fresh)).1.invariant clearTarget_step (clearTarget_new config)
  refine ⟨fun call hnever => ?_, fun first m rest h id call hholds =>
    stays_or_leaves (hclear h) m hholds⟩
  have hstep {first : List Move} {m : Move} {rest : List Move} (h : moves = first ++ m :: rest) :
      (call, .failed .continuationDropped) ∈
          ((run (.new config) first).respond m).2.filterMap Effect.return? ↔
        ∃ id, (run (.new config) first).late? m = some id ∧
          (run (.new config) first).Holds (.entry id) call := by
    obtain ⟨hfirst, hallowed, -⟩ := along_append.1 (h ▸ legal)
    refine let_go_iff (hclear h) (hfirst.invariant keeping_subset_step (List.nil_subset _)) hallowed
      fun hhanded => hnever ?_
    rw [h, run_append]
    exact handed_subset_run _ _ hhanded
  rw [mem_returned_run]
  constructor
  · rintro (hnone | ⟨first, m, rest, h, hmem⟩)
    · cases hnone
    · obtain ⟨id, hlate, hholds⟩ := (hstep h).1 hmem
      exact ⟨first, m, rest, id, h, hlate, hholds⟩
  · rintro ⟨first, m, rest, id, h, hlate, hholds⟩
    exact Or.inr ⟨first, m, rest, h, (hstep h).2 ⟨id, hlate, hholds⟩⟩

theorem abandoned_iff_parkedOverRead :
    let moves := reusedId ++ [reachTarget]
    0 ∉ (run (.new .default) moves).handed ∧
      (0, .failed .continuationDropped) ∉ (run (.new .default) moves).returned ∧
      ¬∃ first m rest id, moves = first ++ m :: rest ∧
        (run (.new .default) first).late? m = some id ∧
        (run (.new .default) first).Holds (.entry id) 0 := by
  intro moves
  have parked := parkedOverRead
  have hnever : 0 ∉ (run (.new .default) moves).handed := by
    rw [parked.handed]
    exact List.not_mem_nil
  have hnot : (0, .failed .continuationDropped) ∉ (run (.new .default) moves).returned :=
    fun hmem => parked.waits.2.1 (List.mem_map_of_mem hmem)
  have hiff := (abandoned_iff .default legal_parkedOverRead freshIds_parkedOverRead).1 0 hnever
  exact ⟨hnever, hnot, fun h => hnot (hiff.2 h)⟩

/-- **A paused step that is let go**: the engine is done with the read under the id of which it
waits, and the session goes on without it. -/
theorem let_go_by_lateRead :
    let moves := reusedId ++ [reachTarget]
    let w := run (.new .default) (moves ++ [lateRead])
    Legal (.new .default) (moves ++ [lateRead]) ∧ FreshIds (.new .default) (moves ++ [lateRead]) ∧
    (run (.new .default) moves).Holds (.entry "x") 0 ∧ 0 ∉ w.handed ∧
    (0, .failed .continuationDropped) ∈ w.returned := by
  intro moves w
  have parked := parkedOverRead
  have hnever : 0 ∉ (run (.new .default) moves).handed := by
    rw [parked.handed]
    exact List.not_mem_nil
  have hclear : (run (.new .default) moves).bridge.ClearTarget :=
    freshIds_parkedOverRead.invariant clearTarget_step (clearTarget_new _)
  have hkept : (run (.new .default) moves).keeping ⊆ (run (.new .default) moves).handed :=
    legal_parkedOverRead.invariant keeping_subset_step (List.nil_subset _)
  have hrun : w = (run (.new .default) moves).step lateRead := run_concat _ _ _
  refine ⟨along_append.2 ⟨legal_parkedOverRead, parked.allows, trivial⟩,
    along_append.2 ⟨freshIds_parkedOverRead, makesNew_of_none rfl, trivial⟩, parked.holds, ?_⟩
  rw [hrun]
  generalize run (.new .default) moves = before at *
  refine ⟨?_, ?_⟩
  · rw [handed_step, show (before.respond lateRead).2.filterMap Effect.handed? = [] from
      Bridge.filterMap_handed?_answer _ _ _ _, List.append_nil]
    exact hnever
  · rw [returned_step]
    exact List.mem_append_right _ ((let_go_iff hclear hkept parked.allows hnever).2
      ⟨"x", parked.answered, parked.holds⟩)

end World

end DebugBridge

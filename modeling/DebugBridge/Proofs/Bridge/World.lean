import DebugBridge.Bridge.Run

/-!
# Bridge/World — a bridge among an engine, debuggers and links

Some inputs of a bridge answer its effects: a read of storage ends after it was asked for, and an
injection is taken or refused after it was offered. A `World` is a bridge with what its surroundings
hold because of earlier effects, and with a record of all that has happened; a `Move` is the next
thing that happens. Every order of engine, debugger and link is a list of moves, each of which the
world before it allows.

Beyond its inputs a bridge is affected by two things: the engine resumes a paused step that it was
handed, or lets go of it, and whoever waits for a call may stop to do so.
-/

namespace DebugBridge

/-! ## Reading effects -/

/-- The request that a read of storage is for, with its session. -/
def StorageRead.request (read : StorageRead) : SessionId × RequestId :=
  (read.session, read.replyTo)

/-- The request that an injection is for, with its session. -/
def CodeInjection.request (injection : CodeInjection) : SessionId × RequestId :=
  (injection.session, injection.replyTo)

namespace Effect

/-- The answer that goes to a debugger, by its session and its id. -/
def answer? : Effect → Option (SessionId × RequestId)
  | .send session frame =>
    match frame.envelope.type with
    | .response => some (session, frame.envelope.id)
    | .request => none
  | _ => none

/-- The call that returns. -/
def return? : Effect → Option (CallId × Outcome)
  | .finish call outcome => some (call, outcome)
  | _ => none

def read? : Effect → Option StorageRead
  | .readStorage read => some read
  | _ => none

def injection? : Effect → Option CodeInjection
  | .inject injection => some injection
  | _ => none

/-- The paused call that the engine is handed. -/
def handed? : Effect → Option CallId
  | .inject injection => injection.paused
  | _ => none

/-- What reads nothing off calls that return reads nothing off wakes. -/
theorem filterMap_wakes {α : Type} {f : Effect → Option α}
    (hf : ∀ call outcome, f (.finish call outcome) = none) (wakes : List Wake) :
    (wakes.map Wake.effect).filterMap f = [] := by
  rw [List.filterMap_map]
  exact List.filterMap_eq_nil_iff.2 fun _ _ => hf _ _

end Effect

/-- The request that a frame brings to the live session. -/
def Bridge.request? (b : Bridge) : Input → Option (SessionId × RequestId)
  | .frame id bytes =>
    match Envelope.decode bytes, b.session? id with
    | .ok e, some _ =>
      match e.type with
      | .request => some (id, e.id)
      | .response => none
    | _, _ => none
  | _ => none

/-! ## Moves -/

/-- What can happen next. -/
inductive Move where
  | input (input : Input)
  /-- The engine resumes the paused step of an injection. -/
  | resume (injection : CodeInjection)
  /-- The engine lets go of an injection and of its paused step. -/
  | letGo (injection : CodeInjection)
  /-- Nobody waits for a call any longer. -/
  | cancel (call : CallId)

namespace Move

/-- The read of storage that is over. -/
def read? : Move → Option StorageRead
  | .input (.storageRead read _) | .input (.storageRefused read) => some read
  | _ => none

/-- The injection that is taken or refused. -/
def offer? : Move → Option CodeInjection
  | .input (.injected injection _) => some injection
  | _ => none

/-- The injection that the engine is done with. -/
def release? : Move → Option CodeInjection
  | .resume injection | .letGo injection => some injection
  | _ => none

def cancelled? : Move → Option CallId
  | .cancel call => some call
  | _ => none

/-- The id that the bridge has made for a request to the debugger. -/
def made? : Move → Option RequestId
  | .input (.report _ id) | .input (.request _ id) => some id
  | _ => none

end Move

/-! ## Worlds -/

/-- **A bridge and its surroundings.** -/
structure World where
  bridge : Bridge
  /-- The reads of storage that are under way. -/
  reads : List StorageRead
  /-- The injections that the engine has not taken or refused yet. -/
  offers : List CodeInjection
  /-- The injections that the engine keeps, done with or not. -/
  kept : List CodeInjection
  /-- The calls that nobody waits for any longer. -/
  cancelled : List CallId
  /-- The requests that debuggers have made of live sessions. -/
  requests : List (SessionId × RequestId)
  /-- All effects so far. -/
  log : List Effect

namespace World

/-- The world of a new bridge. -/
def new (config : Config) : World :=
  ⟨.new config, [], [], [], [], [], []⟩

/-- The answers that have gone to debuggers. -/
def answers (w : World) : List (SessionId × RequestId) :=
  w.log.filterMap Effect.answer?

/-- The calls that have returned, with their outcomes. -/
def returned (w : World) : List (CallId × Outcome) :=
  w.log.filterMap Effect.return?

/-- The paused calls that the engine has been handed. -/
def handed (w : World) : List CallId :=
  w.log.filterMap Effect.handed?

/-- Whether a call has been made, has not returned, and somebody waits for it. -/
def Waits (w : World) (call : CallId) : Prop :=
  call < w.bridge.calls ∧ call ∉ w.returned.map (·.1) ∧ call ∉ w.cancelled

/-- The bridge after a move, and what the move brings about. -/
def respond (w : World) : Move → Bridge × List Effect
  | .input input => w.bridge.step input
  | .resume injection => (w.bridge, injection.resume.toList.map Wake.effect)
  | .letGo injection => (w.bridge, injection.drop.toList.map Wake.effect)
  | .cancel _ => (w.bridge, [])

/-- The request that a move brings. -/
def request? (w : World) : Move → Option (SessionId × RequestId)
  | .input input => w.bridge.request? input
  | _ => none

/-- **The world after a move.** -/
def step (w : World) (m : Move) : World :=
  let (bridge, effects) := w.respond m
  { bridge
    reads := m.read?.elim w.reads w.reads.erase ++ effects.filterMap Effect.read?
    offers := m.offer?.elim w.offers w.offers.erase ++ effects.filterMap Effect.injection?
    kept := m.release?.elim w.kept w.kept.erase ++ effects.filterMap Effect.injection?
    cancelled := w.cancelled ++ m.cancelled?.toList
    requests := w.requests ++ (w.request? m).toList
    log := w.log ++ effects }

/-- **Whether a move is possible.** What is over must have been under way. -/
structure Allows (w : World) (m : Move) : Prop where
  read : ∀ read ∈ m.read?, read ∈ w.reads
  offer : ∀ injection ∈ m.offer?, injection ∈ w.offers
  release : ∀ injection ∈ m.release?, injection ∈ w.kept

/-- A move that ends nothing is possible. -/
theorem allows_of_free {w : World} {m : Move} (read : m.read? = none) (offer : m.offer? = none)
    (release : m.release? = none) : w.Allows m :=
  ⟨by simp [read], by simp [offer], by simp [release]⟩

/-- Whether the id that the bridge makes in a move is new as far as it matters: it is neither
pending nor the id of the run that is under way. -/
def MakesNew (w : World) (m : Move) : Prop :=
  ∀ id ∈ m.made?, ∀ s ∈ w.bridge.session,
    s.pending.get? id = none ∧ ∀ cursor ∈ s.state.runUntil, cursor.id ≠ id

theorem makesNew_of_none {w : World} {m : Move} (h : m.made? = none) : w.MakesNew m := by
  simp [MakesNew, h]

/-! ## Runs -/

/-- The world after moves. -/
def run (w : World) (moves : List Move) : World :=
  moves.foldl step w

/-- Whether every one of some moves has a property in the world before it. -/
def Along (P : World → Move → Prop) (w : World) : List Move → Prop
  | [] => True
  | m :: rest => P w m ∧ Along P (w.step m) rest

/-- **Moves that are possible one after the other.** -/
abbrev Legal : World → List Move → Prop := Along Allows

/-- Moves in which the ids that the bridge makes are new. -/
abbrev FreshIds : World → List Move → Prop := Along MakesNew

@[simp] theorem run_nil (w : World) : w.run [] = w := rfl

@[simp] theorem run_cons (w : World) (m : Move) (rest : List Move) :
    w.run (m :: rest) = (w.step m).run rest := rfl

theorem run_append (w : World) (first second : List Move) :
    w.run (first ++ second) = (w.run first).run second :=
  List.foldl_append

theorem run_concat (w : World) (moves : List Move) (m : Move) :
    w.run (moves ++ [m]) = (w.run moves).step m :=
  run_append w moves [m]

theorem along_append {P : World → Move → Prop} {w : World} {first second : List Move} :
    Along P w (first ++ second) ↔ Along P w first ∧ Along P (w.run first) second := by
  induction first generalizing w with
  | nil => simp [Along]
  | cons m rest ih => simp [Along, ih, and_assoc]

theorem along_of_forall {P : World → Move → Prop} (h : ∀ w m, P w m) {w : World}
    {moves : List Move} : Along P w moves := by
  induction moves generalizing w with
  | nil => trivial
  | cons m rest ih => exact ⟨h w m, ih⟩

/-- **The first move that has not a property**, if not all of them have it. -/
theorem along_or_exists (P : World → Move → Prop) (w : World) (moves : List Move) :
    Along P w moves ∨ ∃ before m after, moves = before ++ m :: after ∧ Along P w before ∧
      ¬P (w.run before) m := by
  induction moves generalizing w with
  | nil => exact .inl trivial
  | cons m rest ih =>
    by_cases h : P w m
    · rcases ih (w.step m) with hrest | ⟨before, other, after, rfl, hbefore, hnot⟩
      · exact .inl ⟨h, hrest⟩
      · exact .inr ⟨m :: before, other, after, rfl, ⟨h, hbefore⟩, hnot⟩
    · exact .inr ⟨[], m, rest, rfl, trivial, h⟩

/-- **What every move keeps holds after a run.** -/
theorem Along.invariant {P : World → Move → Prop} {I : World → Prop}
    (keeps : ∀ {w m}, P w m → I w → I (w.step m)) {w : World} {moves : List Move}
    (along : Along P w moves) (h : I w) : I (w.run moves) := by
  induction moves generalizing w with
  | nil => exact h
  | cons m rest ih => exact ih along.2 (keeps along.1 h)

/-- What is in the log after a run was there before, or comes from one of its moves. -/
theorem mem_log_run {α : Type} {f : Effect → Option α} {w : World} {moves : List Move} {a : α} :
    a ∈ (w.run moves).log.filterMap f ↔
      a ∈ w.log.filterMap f ∨ ∃ first m rest, moves = first ++ m :: rest ∧
        a ∈ ((w.run first).respond m).2.filterMap f := by
  induction moves generalizing w with
  | nil => simp
  | cons m rest ih =>
    rw [run_cons, ih, step, List.filterMap_append, List.mem_append, or_assoc]
    refine or_congr_right ⟨?_, ?_⟩
    · rintro (hmem | ⟨first, m', rest', rfl, hmem⟩)
      · exact ⟨[], m, rest, rfl, hmem⟩
      · exact ⟨m :: first, m', rest', rfl, hmem⟩
    · rintro ⟨first, m', rest', heq, hmem⟩
      rcases first with _ | ⟨m'', first⟩
      · obtain ⟨rfl, rfl⟩ := List.cons.inj heq
        exact Or.inl hmem
      · obtain ⟨rfl, rfl⟩ := List.cons.inj heq
        exact Or.inr ⟨first, m', rest', rfl, hmem⟩

/-- **Whether a world can come about.** -/
def Reachable (w : World) : Prop :=
  ∃ config moves, Legal (.new config) moves ∧ (World.new config).run moves = w

/-- **What holds of a new bridge and is kept by every possible move holds of every world.** -/
theorem Reachable.invariant {I : World → Prop} (start : ∀ config, I (.new config))
    (keeps : ∀ {w m}, Allows w m → I w → I (w.step m)) {w : World} (h : w.Reachable) : I w := by
  obtain ⟨config, moves, legal, rfl⟩ := h
  exact legal.invariant keeps (start config)

/-! ## What a move changes -/

theorem bridge_step (w : World) (m : Move) : (w.step m).bridge = (w.respond m).1 := rfl

theorem reads_step (w : World) (m : Move) :
    (w.step m).reads =
      m.read?.elim w.reads w.reads.erase ++ (w.respond m).2.filterMap Effect.read? := rfl

theorem kept_step (w : World) (m : Move) :
    (w.step m).kept =
      m.release?.elim w.kept w.kept.erase ++ (w.respond m).2.filterMap Effect.injection? := rfl

theorem cancelled_step (w : World) (m : Move) :
    (w.step m).cancelled = w.cancelled ++ m.cancelled?.toList := rfl

theorem answers_step (w : World) (m : Move) :
    (w.step m).answers = w.answers ++ (w.respond m).2.filterMap Effect.answer? :=
  List.filterMap_append

theorem returned_step (w : World) (m : Move) :
    (w.step m).returned = w.returned ++ (w.respond m).2.filterMap Effect.return? :=
  List.filterMap_append

theorem handed_step (w : World) (m : Move) :
    (w.step m).handed = w.handed ++ (w.respond m).2.filterMap Effect.handed? :=
  List.filterMap_append

end World

end DebugBridge

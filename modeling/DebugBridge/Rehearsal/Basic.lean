import DebugBridge.Bridge.Run
import DebugBridge.Rehearsal.Endpoint
import DebugBridge.Rehearsal.EngineScript
import DebugBridge.Rehearsal.Link

/-!
# Rehearsal — a bridge among scripted debuggers and a scripted engine

A rehearsal is a bridge together with all that its effects reach: the links to the debuggers that
were attached, one after the other, the engine, and the calls that were made. What can run is a
queue of tasks, which are run in the order in which they became ready: a call when it is made, a
read of storage when it is asked for, and the taking of frames when a debugger is attached and when
something is put on its link. A task runs until it has to wait or is done, but the taking of frames
gives way to the other tasks from time to time.

A pass over the queue runs what is in it. Only takings of frames put something into the queue again:
what they leave, and reads of storage. So there is nothing to run after as many passes as the
deliveries take, and one more.
-/

namespace DebugBridge

/-- What the engine's side calls a bridge for. -/
inductive Call where
  | event (event : EngineEvent)
  | request (request : EngineRequest)

/-- Where a read of storage gets its word from. -/
inductive WordSource where
  /-- The engine knows the word, or that there is none. -/
  | known (word : Option StorageWord)
  /-- The read has to pass the gate with a number. -/
  | gate (n : Nat)

/-- A gate at which a read of storage waits until the engine releases it. -/
inductive Gate where
  /-- The read has not come to the gate. -/
  | ahead
  /-- The read waits. -/
  | waiting (read : StorageRead)
  /-- The engine has released the read before it came. -/
  | opened (word : Option StorageWord)
  /-- The engine has released the read, and nothing is left to do. -/
  | passed

/-- What can run. -/
inductive Task where
  /-- The bridge takes what is on the link of a session. -/
  | take (session : SessionId)
  /-- A call starts, and is known by a tag. -/
  | start (tag : String) (call : Call)
  /-- A read of storage goes on. -/
  | storageRead (read : StorageRead) (source : WordSource)

/-- Whether a task is to take what is on the link of a session. -/
def Task.takes (id : SessionId) : Task → Bool
  | .take session => session == id
  | _ => false

/-- What the engine is asked for, or does. -/
inductive EngineNote where
  | storage (address : Address) (slot : StorageWord)
  | inject (injection : CodeInjection)
  /-- An injection was resumed; whether there was a paused step. -/
  | resumed (hadStep : Bool)

/-- A call that has not returned. -/
structure WaitingCall where
  tag : String
  call : CallId
  /-- Whether only its return is of interest, and not its outcome. -/
  bare : Bool

/-- A bridge among scripted debuggers and a scripted engine. -/
structure Rehearsal where
  bridge : Bridge
  /-- The links of the sessions in their order. -/
  links : List Link
  script : EngineScript
  tasks : List Task
  waiting : List WaitingCall
  /-- The gates of the reads that have to be released. -/
  gates : List Gate
  /-- The injections that the engine keeps, without those it is done with. -/
  held : List (Option CodeInjection)
  /-- What the ids of requests are made from. -/
  seed : UInt64
  /-- How many ids of requests were made. -/
  ids : Nat
  notes : List EngineNote
  /-- The calls that can return, with their outcomes where these are of interest. -/
  returning : List (String × Option Outcome)
  /-- The calls that have returned. -/
  returned : List (String × Option Outcome)

namespace Rehearsal

def new (config : Config) (seed : UInt64) : Rehearsal where
  bridge := .new config
  links := []
  script := ⟨.failing, .failing⟩
  tasks := []
  waiting := []
  gates := []
  held := []
  seed
  ids := 0
  notes := []
  returning := []
  returned := []

/-- A number in a fixed count of hexadecimal digits, if it needs no more. -/
def padded (count n : Nat) : List Char :=
  let digits := Hex.ofNat n
  List.replicate (count - digits.length) '0' ++ digits

/-- An id of a request, each with another number, in the form of random ids. A seed that nobody
guesses keeps it apart from the ids that debuggers choose. -/
def requestId (seed : UInt64) (n : Nat) : RequestId :=
  let digits := padded 18 seed.toNat
  let group (start count : Nat) : String := String.ofList ((digits.drop start).take count)
  s!"{group 0 8}-{group 8 4}-4{group 12 3}-8{group 15 3}-{String.ofList (padded 12 n)}"

/-! ## Links -/

/-- The link of a session. -/
def link? (r : Rehearsal) (id : SessionId) : Option Link :=
  match id with
  | 0 => none
  | n + 1 => r.links[n]?

/-- Changes the link of a session. -/
def onLink (r : Rehearsal) (id : SessionId) (change : Link → Link) : Rehearsal :=
  { r with links := r.links.modify (id - 1) change }

/-- Rouses the bridge to take what is on a link, unless it is about to. -/
def rouse (r : Rehearsal) (id : SessionId) : Rehearsal :=
  if r.tasks.any (·.takes id) then r else { r with tasks := r.tasks ++ [.take id] }

/-! ## Effects -/

/-- A frame reaches its link, or a call can return. -/
def deliver (r : Rehearsal) : Effect → Rehearsal
  | .send id frame => r.onLink id (·.send frame)
  | .finish call outcome =>
    match r.waiting.find? (·.call == call) with
    | none => r
    | some waiting =>
      { r with
        waiting := r.waiting.filter (·.call != call)
        returning := r.returning ++ [(waiting.tag, if waiting.bare then none else some outcome)] }
  | .readStorage _ | .inject _ => r

/-- Takes over what an operation without services comes to. -/
def conclude (r : Rehearsal) (result : Bridge × List Effect) : Rehearsal :=
  result.2.foldl deliver { r with bridge := result.1 }

/-- A paused step ends outside of the bridge. -/
def wake (r : Rehearsal) (wake : Option Wake) : Rehearsal :=
  wake.toList.foldl (fun r wake => r.deliver wake.effect) r

def note (r : Rehearsal) (note : EngineNote) : Rehearsal :=
  { r with notes := r.notes ++ [note] }

/-- The engine is asked to read storage. -/
def readStorage (r : Rehearsal) (read : StorageRead) : Rehearsal :=
  let r := r.note (.storage read.address read.slot)
  match r.script.storage.result? read with
  | some word => { r with tasks := r.tasks ++ [.storageRead read (.known word)] }
  | none =>
    { r with
      tasks := r.tasks ++ [.storageRead read (.gate r.gates.length)]
      gates := r.gates ++ [.ahead] }

/-- The engine is asked to swap code. -/
def inject (r : Rehearsal) (injection : CodeInjection) : Rehearsal :=
  let r := r.note (.inject injection)
  let r :=
    match r.script.injection with
    | .resuming => (r.wake injection.resume).note (.resumed injection.resume.isSome)
    | .failing | .failingInside | .dropping => r.wake injection.drop
    | .holding => { r with held := r.held ++ [some injection] }
  r.conclude (r.bridge.injected injection r.script.injection.result)

/-- Brings about an effect. Where nothing can run in the background, reads of storage are
refused. -/
def perform (background : Bool) (r : Rehearsal) : Effect → Rehearsal
  | .readStorage read =>
    if background then r.readStorage read else r.conclude (r.bridge.storageRefused read)
  | .inject injection => r.inject injection
  | effect => r.deliver effect

/-- Takes over what an operation comes to. -/
def apply (r : Rehearsal) (result : Bridge × List Effect) (background : Bool) : Rehearsal :=
  result.2.foldl (perform background) { r with bridge := result.1 }

/-! ## Tasks -/

/-- The bridge takes what is on a link, up to its close. -/
def takeAll (r : Rehearsal) (id : SessionId) : List Delivery → Rehearsal
  | [] => r
  | .frame bytes :: rest => takeAll (r.apply (r.bridge.receive id bytes) true) id rest
  | .closed :: _ => r.apply (r.bridge.linkClosed id) true

/-- How many deliveries the bridge takes from a link before it gives way to other tasks. -/
def takeLimit : Nat := 128

/-- The bridge takes what is on a link, up to the limit. -/
def take (r : Rehearsal) (id : SessionId) : Rehearsal :=
  match r.link? id with
  | none => r
  | some link =>
    let (now, later) := link.toBridge.splitAt takeLimit
    let r := (r.onLink id fun link => { link with toBridge := later }).takeAll id now
    if later.isEmpty then r else r.rouse id

/-- A call starts. -/
def start (r : Rehearsal) (tag : String) (call : Call) : Rehearsal :=
  let n := r.ids + 1
  let waiting : WaitingCall := ⟨tag, r.bridge.calls, match call with
    | .event _ | .request .ping => false
    | .request _ => true⟩
  let r := { r with ids := n, waiting := r.waiting ++ [waiting] }
  match call with
  | .event event => r.apply (r.bridge.report event (requestId r.seed n)) true
  | .request request => r.apply (r.bridge.request request (requestId r.seed n)) true

/-- A read comes to its gate, and goes on if the gate is open. -/
def arrive (r : Rehearsal) (read : StorageRead) (n : Nat) : Rehearsal :=
  match r.gates[n]? with
  | some .ahead => { r with gates := r.gates.set n (.waiting read) }
  | some (.opened word) =>
    { r with gates := r.gates.set n .passed }.apply (r.bridge.storageRead read word) true
  | _ => r

def runTask (r : Rehearsal) : Task → Rehearsal
  | .take id => r.take id
  | .start tag call => r.start tag call
  | .storageRead read (.known word) => r.apply (r.bridge.storageRead read word) true
  | .storageRead read (.gate n) => r.arrive read n

/-- Runs the tasks of the queue; those they start are queued. -/
def runPass (r : Rehearsal) : Rehearsal :=
  r.tasks.foldl runTask { r with tasks := [] }

/-- Runs a number of passes. -/
def runPasses : (count : Nat) → Rehearsal → Rehearsal
  | 0, r => r
  | count + 1, r => runPasses count r.runPass

/-- How many passes leave nothing to run: those that take all deliveries, and one for the reads that
the last of them starts. -/
def passes (r : Rehearsal) : Nat :=
  (r.links.flatMap (·.toBridge)).length / takeLimit + 2

/-- **Runs all that can run.** In the end the bridge reads only the link of a live session, and the
calls that can return have returned. -/
def settle (r : Rehearsal) : Rehearsal :=
  let r := r.runPasses r.passes
  let live := r.bridge.session.elim 0 (·.id)
  { r with
    links := r.links.mapIdx fun n link => if n + 1 = live then link else link.stop
    returning := []
    returned := r.returned ++ r.returning }

/-! ## Debuggers -/

/-- Connects a debugger, where a link is held in memory. While the bridge waits, all that can run
runs. -/
def attach (r : Rehearsal) (attempt : Attempt) (kind : LinkKind) :
    Rehearsal × Except TransportError Unit :=
  let (bridge, result) := r.bridge.attach attempt.connecting
  match result with
  | .ok () =>
    ({ r with
      bridge
      links := r.links ++ [.new kind]
      tasks := r.tasks ++ [.take (r.links.length + 1)] }, result)
  | .error .alreadyConnected => (r, result)
  | .error _ => (if attempt.waits then r.settle else r, result)

/-- Listens at an endpoint, if it is one of this machine. While a name is looked up, all that can
run runs. -/
def listen (r : Rehearsal) (endpoint : String) : Rehearsal × Option Listener :=
  (if Listener.isNumeric endpoint then r else r.settle, Listener.ofEndpoint? endpoint)

/-- A debugger puts something on its link. -/
def put (r : Rehearsal) (id : SessionId) (delivery : Delivery) : Rehearsal :=
  (r.onLink id (·.put delivery)).rouse id

/-- A debugger stops hearing: the link takes no more frames. -/
def deafen (r : Rehearsal) (id : SessionId) : Rehearsal :=
  { r.onLink id (·.deafen) with bridge := r.bridge.linkDeaf id }

/-- A debugger stops speaking. -/
def mute (r : Rehearsal) (id : SessionId) : Rehearsal :=
  (r.onLink id (·.mute)).rouse id

/-- A debugger lets go of its link. -/
def leave (r : Rehearsal) (id : SessionId) : Rehearsal :=
  { (r.onLink id (·.leave)).rouse id with bridge := r.bridge.linkDeaf id }

/-! ## Calls and services -/

/-- Nobody waits for a call any longer, unless it has returned. -/
def abandon (r : Rehearsal) (tag : String) : Rehearsal :=
  { r with
    waiting := r.waiting.filter (·.tag != tag)
    returning := r.returning.filter (·.1 != tag)
    tasks := r.tasks.filter fun task =>
      match task with
      | .start other _ => other != tag
      | _ => true }

/-- The engine releases a read, which has come to its gate or not. -/
def release (r : Rehearsal) (n : Nat) (word : Option StorageWord) : Option Rehearsal :=
  match r.gates[n]? with
  | some .ahead => some { r with gates := r.gates.set n (.opened word) }
  | some (.waiting read) =>
    some { r with
      gates := r.gates.set n .passed
      tasks := r.tasks ++ [.storageRead read (.known word)] }
  | _ => none

/-- The engine is done with an injection it kept: it resumes the paused step or lets go of it. -/
def finishHeld (r : Rehearsal) (n : Nat) (wake : CodeInjection → Option Wake) :
    Option (Rehearsal × Bool) :=
  match r.held[n]? with
  | some (some injection) =>
    some ({ r with held := r.held.set n none }.wake (wake injection), (wake injection).isSome)
  | _ => none

end Rehearsal

end DebugBridge

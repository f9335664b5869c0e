import DebugBridge.BridgeError
import DebugBridge.KeyMap

/-!
# Pending — requests that have no answer yet

Every request that crosses the link, in either direction, has an entry under its id until it is
answered. The entry of a request to the debugger holds the call of the engine that waits for the
response; the entry of a request of the debugger holds nothing. Responses are matched by their ids
alone, so they may come in any order.

What becomes of a call can be read off the operations: each gives the calls that end with it, and a
call whose entry goes away without a response or a reason is `released`.
-/

namespace DebugBridge

/-- The number of a call of the engine. -/
abbrev CallId := Nat

/-- How the wait of a call ends. -/
inductive Ending where
  | resumed (response : Envelope)
  | failed (error : BridgeError)
  /-- What would have resumed the call went away. -/
  | released
  deriving DecidableEq, Repr

/-- A call whose wait has ended. -/
structure Wake where
  call : CallId
  ending : Ending
  deriving DecidableEq, Repr

/-- What a response to an id continues. -/
inductive Continuation where
  /-- A call of the engine waits. -/
  | resume (call : CallId)
  /-- A request of the debugger that the bridge still has to answer. -/
  | awaitingReply
  deriving DecidableEq, Repr

/-- The calls that end when a continuation comes to an end. -/
def Continuation.settle : Continuation → Ending → List Wake
  | .resume call, ending => [⟨call, ending⟩]
  | .awaitingReply, _ => []

/-- The requests without an answer, by their ids. -/
structure Pending where
  entries : KeyMap Continuation
  deriving DecidableEq, Repr

namespace Pending

def empty : Pending := ⟨.empty⟩

instance : Inhabited Pending := ⟨empty⟩

def get? (p : Pending) (id : RequestId) : Option Continuation :=
  p.entries.get? id

def contains (p : Pending) (id : RequestId) : Bool :=
  p.entries.contains id

def size (p : Pending) : Nat :=
  p.entries.size

def isEmpty (p : Pending) : Bool :=
  p.entries.isEmpty

/-- Adds an entry, unless there is one under this id. -/
def register (p : Pending) (id : RequestId) (continuation : Continuation) :
    Except BridgeError Pending :=
  if p.contains id then .error (.duplicateRequest id)
  else .ok ⟨p.entries.insert id continuation⟩

/-- Takes an entry out, if there is one. -/
def take? (p : Pending) (id : RequestId) : Option (Continuation × Pending) :=
  (p.get? id).map fun continuation => (continuation, ⟨p.entries.erase id⟩)

/-- **Continues what waits for a response**; nothing when its id is not known. -/
def resolve? (p : Pending) (response : Envelope) : Option (Pending × List Wake) :=
  (p.take? response.id).map fun (continuation, rest) =>
    (rest, continuation.settle (.resumed response))

/-- Removes an entry and lets go of what waited for it. -/
def drop (p : Pending) (id : RequestId) : Pending × List Wake :=
  match p.take? id with
  | some (continuation, rest) => (rest, continuation.settle .released)
  | none => (p, [])

/-- Sets an entry and gives back the one that was there. -/
def reassign (p : Pending) (id : RequestId) (continuation : Continuation) :
    Pending × Option Continuation :=
  (⟨p.entries.insert id continuation⟩, p.get? id)

/-- **Removes all entries**; every call that waits fails. -/
def failAll (p : Pending) (error : BridgeError) : Pending × List Wake :=
  (empty, p.entries.values.flatMap (·.settle (.failed error)))

/-! ## The view through `get?` -/

@[simp] theorem get?_mk (entries : KeyMap Continuation) (id : RequestId) :
    (⟨entries⟩ : Pending).get? id = entries.get? id := rfl

@[simp] theorem get?_empty (id : RequestId) : empty.get? id = none := rfl

theorem contains_eq (p : Pending) (id : RequestId) : p.contains id = (p.get? id).isSome := rfl

/-- The entries besides the one that was dropped stay. -/
theorem get?_drop (p : Pending) (id k : RequestId) :
    (p.drop id).1.get? k = if k = id then none else p.get? k := by
  unfold drop take?
  cases h : p.get? id with
  | none => grind
  | some continuation => simp [get?]

end Pending

end DebugBridge

import DebugBridge.Breakpoint
import DebugBridge.Envelope

/-!
# DebuggerState — what the debugger has set up in a session

The debugger enables breakpoints, tells where functions are entered and variables declared, and may
ask to run freely up to a program counter. All of it lasts as long as the session.
-/

namespace DebugBridge

/-! ## Breakpoints -/

/-- The live breakpoints in three buckets by their scope, each in the order of enabling. -/
structure BreakpointSet where
  creation : List Breakpoint
  runtime : List Breakpoint
  unscoped : List Breakpoint
  deriving DecidableEq, Repr

namespace BreakpointSet

def empty : BreakpointSet := ⟨[], [], []⟩

/-- The breakpoints of one scope. -/
def bucket (s : BreakpointSet) : Option CodeFlavor → List Breakpoint
  | some .creation => s.creation
  | some .runtime => s.runtime
  | none => s.unscoped

/-- Adds a breakpoint at the end of its bucket. -/
def add (s : BreakpointSet) (b : Breakpoint) : BreakpointSet :=
  match b.scope with
  | some .creation => { s with creation := s.creation ++ [b] }
  | some .runtime => { s with runtime := s.runtime ++ [b] }
  | none => { s with unscoped := s.unscoped ++ [b] }

/-- Whether the bucket of a breakpoint has one with the same id and address. -/
def isLive (s : BreakpointSet) (b : Breakpoint) : Bool :=
  (s.bucket b.scope).any fun other => other.id == b.id && other.address == b.address

/-- **Enables a breakpoint** and tells whether it is new. One with its id and address that is live
in its bucket stays as it is. -/
def enable (s : BreakpointSet) (b : Breakpoint) : BreakpointSet × Bool :=
  if s.isLive b then (s, false) else (s.add b, true)

/-- All live breakpoints, bucket by bucket. -/
def toList (s : BreakpointSet) : List Breakpoint :=
  s.creation ++ s.runtime ++ s.unscoped

/-- **Disables every breakpoint with an id** and tells how many there were. -/
def disable (s : BreakpointSet) (id : BreakpointId) : BreakpointSet × Nat :=
  let others (l : List Breakpoint) := l.filter (·.id != id)
  let s' : BreakpointSet := ⟨others s.creation, others s.runtime, others s.unscoped⟩
  (s', s.toList.length - s'.toList.length)

/-- Whether a breakpoint stands here for code of the given flavour; one without a scope stands in
both. -/
def hits (s : BreakpointSet) (address : AddressKey) (pc : UInt64) (runtime : Bool) : Bool :=
  (s.bucket (some (.ofRuntime runtime)) ++ s.unscoped).any (·.isAt address pc)

/-- Whether any breakpoint stands here. -/
def hitsAnyScope (s : BreakpointSet) (address : AddressKey) (pc : UInt64) : Bool :=
  s.toList.any (·.isAt address pc)

end BreakpointSet

/-! ## Program counters by address -/

/-- Sets of program counters by the address of their contract. -/
abbrev AddressIndex := KeyMap (List UInt64)

namespace AddressIndex

/-- Replaces what is known of an address. -/
def replace (index : AddressIndex) (address : AddressKey) (pcs : List UInt64) : AddressIndex :=
  index.insert address.text pcs

/-- Whether a program counter of an address is known. -/
def has (index : AddressIndex) (address : AddressKey) (pc : UInt64) : Bool :=
  ((index.get? address.text).getD []).contains pc

/-- The program counters of an address in ascending order, each once; nothing when none were ever
sent. -/
def pcs? (index : AddressIndex) (address : AddressKey) : Option (List UInt64) :=
  (index.get? address.text).map fun pcs => (pcs.mergeSort (· ≤ ·)).eraseReps

end AddressIndex

/-! ## The state -/

/-- A request to run freely, answered when the program counter is reached. -/
structure RunUntil where
  id : RequestId
  pc : UInt64
  deriving DecidableEq, Repr

/-- **All that decides whether a step goes to the debugger.** -/
structure DebuggerState where
  breakpoints : BreakpointSet
  jumpDestinations : AddressIndex
  declarations : AddressIndex
  /-- The addresses that run finalized code. -/
  runtime : KeySet
  runUntil : Option RunUntil
  /-- Whether steps that nothing flags are passed over. -/
  fastStep : Bool
  deriving DecidableEq, Repr

namespace DebuggerState

/-- The state of a new session, in which some addresses run finalized code already. -/
def start (runtime : KeySet) : DebuggerState :=
  ⟨.empty, .empty, .empty, runtime, none, true⟩

def isRuntime (s : DebuggerState) (address : AddressKey) : Bool :=
  s.runtime.contains address.text

/-- Notes that an address runs finalized code from now on. -/
def markRuntime (s : DebuggerState) (address : AddressKey) : DebuggerState :=
  { s with runtime := s.runtime.insert address.text () }

end DebuggerState

end DebugBridge

import DebugBridge.EngineService

/-!
# Rehearsal/EngineScript — an engine that acts by a script

The script says how reads of storage and injections go.
-/

namespace DebugBridge

/-- How reads of storage go. -/
inductive StorageScript where
  /-- The word is the number of the slot and 41. -/
  | shifted
  /-- The word is the number of the slot and the address. -/
  | mixed
  | failing
  /-- The read waits until it is released. -/
  | gated
  deriving DecidableEq, Repr

/-- How injections go. -/
inductive InjectionScript where
  | resuming
  | failing
  /-- The injection fails for a reason that has a cause. -/
  | failingInside
  /-- The engine takes the injection and forgets the paused step. -/
  | dropping
  /-- The engine keeps the injection. -/
  | holding
  deriving DecidableEq, Repr

structure EngineScript where
  storage : StorageScript
  injection : InjectionScript
  deriving DecidableEq, Repr

/-- The number that the bytes of an address stand for. -/
def Address.toNat (address : Address) : Nat :=
  address.bytes.foldl (fun n byte => 256 * n + byte.toNat) 0

namespace StorageScript

/-- What comes of a read, if it does not wait. -/
def result? (script : StorageScript) (read : StorageRead) : Option (Option StorageWord) :=
  match script with
  | shifted => some (some (read.slot + 41))
  | mixed => some (some (read.slot + BitVec.ofNat 256 read.address.toNat))
  | failing => some none
  | gated => none

end StorageScript

namespace InjectionScript

/-- What the engine says to an injection. -/
def result : InjectionScript → Except String Unit
  | failing => .error "code rejected"
  | failingInside => .error "outer context"
  | resuming | dropping | holding => .ok ()

end InjectionScript

end DebugBridge

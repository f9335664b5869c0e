import DebugBridge.Frame

/-!
# Rehearsal/Link — a link that is held in memory

A link has two queues. Frames from the bridge wait until the debugger looks at them; what the
debugger puts on the link waits until the bridge takes it. A debugger can stop to use either queue,
and it can let go of the link.

A `direct` link is the pair of a bridge's end and a debugger's end. Its debugger sees messages only,
and shows them by writing them again. Of a `raw` link the debugger holds the two queues themselves,
so it shows the frames as they came and can let go of one queue and keep the other, but does not
notice when the bridge lets go of the queue to the debugger.
-/

namespace DebugBridge

/-- What a debugger puts on a link. -/
inductive Delivery where
  | frame (bytes : List UInt8)
  /-- Nothing follows. -/
  | closed
  deriving DecidableEq, Repr

inductive LinkKind where
  | direct
  | raw
  deriving DecidableEq, Repr

/-- A link between a bridge and a debugger. -/
structure Link where
  kind : LinkKind
  /-- What the bridge has not taken yet. -/
  toBridge : List Delivery
  /-- What the debugger has not looked at yet. -/
  toDebugger : List Frame
  /-- Whether the bridge takes what the debugger puts on the link. -/
  read : Bool
  /-- Whether the debugger can put something on the link. -/
  speaks : Bool
  /-- Whether the debugger takes frames. -/
  hears : Bool
  /-- Whether the debugger has not let go of the link. -/
  held : Bool
  deriving DecidableEq, Repr

namespace Link

def new (kind : LinkKind) : Link :=
  ⟨kind, [], [], true, true, true, true⟩

/-- The messages that have reached the debugger. It passes over a frame that holds none. -/
def received (link : Link) : List Envelope :=
  link.toDebugger.filterMap fun frame => (Envelope.decode frame.bytes).toOption

/-- What the debugger shows of the frames that have reached it. A number that was read once more may
be another one. -/
def shown (link : Link) : List (List UInt8) :=
  match link.kind with
  | .direct => link.received.filterMap (·.encode.toOption)
  | .raw => link.toDebugger.map (·.bytes)

/-- The bridge sends a frame. -/
def send (link : Link) (frame : Frame) : Link :=
  if link.hears then { link with toDebugger := link.toDebugger ++ [frame] } else link

/-- The debugger puts something on the link, if the bridge reads it. -/
def put (link : Link) (delivery : Delivery) : Link :=
  if link.read && link.speaks then { link with toBridge := link.toBridge ++ [delivery] } else link

/-- The debugger stops speaking, which the bridge learns after all that was put before. -/
def mute (link : Link) : Link :=
  { link.put .closed with speaks := false }

/-- The debugger stops hearing. -/
def deafen (link : Link) : Link :=
  { link with hears := false, toDebugger := [] }

/-- The debugger lets go of the link. -/
def leave (link : Link) : Link :=
  { link.mute.deafen with held := false }

/-- The bridge stops reading. -/
def stop (link : Link) : Link :=
  { link with read := false, toBridge := [] }

end Link

end DebugBridge

import DebugBridge.Span
import DebugBridge.Text.Quoted
import DebugBridge.Text.Blank

/-!
# Transport — how the debugger is reached

The bridge either listens for the one debugger that may connect or dials a debugger that listens.
Only faults of the transport end a session.
-/

namespace DebugBridge

/-- Who connects: the debugger to the bridge, or the bridge to the debugger. -/
inductive TransportMode where
  | listen
  | dial
  deriving DecidableEq, Repr

namespace TransportMode

/-- The mode of a name in any case, blanks at its ends apart; else the name that is not known. -/
def ofText (text : String) : Except String TransportMode :=
  match Text.lowerAscii (Text.trim text) with
  | "listen" | "server" => .ok .listen
  | "dial" | "connect" | "client" => .ok .dial
  | other => .error other

/-- The name that a mode is written with. -/
def name : TransportMode → String
  | .listen => "listen"
  | .dial => "dial"

end TransportMode

/-- Where the debugger is and who connects. -/
structure TransportConfig where
  mode : TransportMode
  host : String
  port : UInt16
  deriving DecidableEq, Repr

namespace TransportConfig

/-- The bridge listens on its own machine, unless something else is set. -/
def default : TransportConfig := ⟨.listen, "127.0.0.1", 8455⟩

instance : Inhabited TransportConfig := ⟨default⟩

/-- The host with the port. -/
def endpoint (t : TransportConfig) : String :=
  s!"{t.host}:{t.port}"

/-- The address that the bridge dials. -/
def url (t : TransportConfig) : String :=
  "ws://" ++ t.endpoint

/-- The link that is built from a configuration, in words. -/
def describe (t : TransportConfig) : String :=
  match t.mode with
  | .listen => "ws listen " ++ t.endpoint
  | .dial => "ws dial " ++ t.url

end TransportConfig

/-- Why there is no link to the debugger. -/
inductive TransportError where
  | bind (address source : String)
  | accept (source : String)
  | handshake (endpoint source : String)
  | timeout (deadline : Span)
  /-- The link takes no frames any more. -/
  | sendFailed
  | alreadyConnected
  deriving DecidableEq, Repr

/-- A fault of the transport in words. -/
def TransportError.message : TransportError → String
  | .bind address source => s!"failed to bind {address}: {source}"
  | .accept source => "failed to accept debugger connection: " ++ source
  | .handshake endpoint source => s!"websocket handshake with {endpoint} failed: {source}"
  | .timeout deadline => "debugger connection not established within " ++ deadline.text
  | .sendFailed => "transport closed while sending"
  | .alreadyConnected => "a debugger is already attached"

end DebugBridge

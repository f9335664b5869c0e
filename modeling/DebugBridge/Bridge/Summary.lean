import DebugBridge.Bridge.Basic

/-!
# Bridge/Summary — a bridge in one line

The line has the settings that the bridge was made with, and whether a debugger is attached.
-/

namespace DebugBridge

/-- A name with named parts between braces. -/
def braced (name : String) (parts : List String) : String :=
  name ++ " \x7b " ++ ", ".intercalate parts ++ " \x7d"

/-- The word for a mode. -/
def TransportMode.word : TransportMode → String
  | .listen => "Listen"
  | .dial => "Dial"

/-- Where the debugger is and who connects, in one line. -/
def TransportConfig.summary (t : TransportConfig) : String :=
  braced "TransportConfig"
    ["mode: " ++ t.mode.word, "host: " ++ Text.quoted t.host, s!"port: {t.port}"]

/-- The word for a scope of breakpoints. -/
def ScopeMode.word : ScopeMode → String
  | .scoped => "Scoped"
  | .insensitive => "ScopeInsensitive"

/-- The settings in one line. -/
def Config.summary (c : Config) : String :=
  braced "BridgeConfig"
    ["transport: " ++ c.transport.summary, "connect_timeout: " ++ c.connectTimeout.text,
      s!"skip_gas_estimation: {c.skipGasEstimation}", "breakpoint_scope: " ++ c.scopeMode.word]

/-- The line of a bridge, which leaves out the rest. -/
def Bridge.summary (b : Bridge) : String :=
  braced "Bridge" ["config: " ++ b.config.summary, s!"connected: {b.isConnected}", ".."]

end DebugBridge

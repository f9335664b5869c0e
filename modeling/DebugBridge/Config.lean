import DebugBridge.Policy
import DebugBridge.Transport

/-!
# Config — settings and the environment

The settings have defaults, can be set one by one, and can be taken from an environment. A variable
that is unset or blank leaves its setting as it is. The variables are looked at in one order, and
the first one that is wrong is reported.
-/

namespace DebugBridge

/-- The settings of a bridge. -/
structure Config where
  transport : TransportConfig
  /-- How long attaching may take. -/
  connectTimeout : Span
  /-- Whether steps of a gas estimation are suppressed. -/
  skipGasEstimation : Bool
  scopeMode : ScopeMode
  deriving DecidableEq, Repr

namespace Config

def default : Config := ⟨.default, .ofMilliseconds 60000, false, .scoped⟩

instance : Inhabited Config := ⟨default⟩

end Config

/-! ## Numbers -/

/-- Why a text is no number of a certain width. -/
inductive NumberFault where
  | digit
  | tooLarge
  deriving DecidableEq, Repr

def NumberFault.message : NumberFault → String
  | .digit => "invalid digit found in string"
  | .tooLarge => "number too large to fit in target type"

/-- The digits of a number below `bound`, after those of `value`. What is wrong first counts. -/
def boundedDigits (bound value : Nat) : List Char → Except NumberFault Nat
  | [] => .ok value
  | c :: rest =>
    if c.isDigit then
      let next := 10 * value + (c.toNat - 0x30)
      if next < bound then boundedDigits bound next rest else .error .tooLarge
    else .error .digit

/-- A number below `bound`, which may have a plus sign. -/
def boundedNumber (bound : Nat) (text : String) : Except NumberFault Nat :=
  match text.toList with
  | [] | ['+'] => .error .digit
  | '+' :: digits => boundedDigits bound 0 digits
  | digits => boundedDigits bound 0 digits

/-! ## Environment -/

namespace Environment

def host : String := "SDB_HOST"
def port : String := "SDB_PORT"
def transportMode : String := "SDB_TRANSPORT_MODE"
def connectTimeout : String := "SDB_CONNECT_TIMEOUT_MS"
def skipGasEstimation : String := "SDB_SKIP_GAS_ESTIMATION"

end Environment

/-- What is wrong with a setting. -/
inductive ConfigError where
  | unknownMode (mode : String)
  | badNumber (name value : String) (fault : NumberFault)
  | badFlag (name value : String)
  deriving DecidableEq, Repr

def ConfigError.message : ConfigError → String
  | .unknownMode mode => s!"Unknown transport mode `{mode}`, expected `listen` or `dial`"
  | .badNumber name value fault => s!"Invalid {name} value `{value}`: {fault.message}"
  | .badFlag name value => s!"Invalid {name} value `{value}`"

/-- The flag of a word, in any case and with blanks around it. -/
def flagOfText? (text : String) : Option Bool :=
  let word := Text.lowerAscii (Text.trim text)
  if ["1", "true", "yes", "on"].contains word then some true
  else if ["0", "false", "no", "off"].contains word then some false
  else none

namespace Config

/-- The value of a variable that is set and not blank. -/
def setting? (environment : List (String × String)) (name : String) : Option String :=
  (environment.lookup name).filter fun value => (Text.trim value).toList ≠ []

/-- A number below `bound` in a variable. -/
def numberIn (name : String) (bound : Nat) (value : String) : Except ConfigError Nat :=
  (boundedNumber bound value).mapError (.badNumber name value)

/-- **The settings with what the environment says on top.** -/
def merge (config : Config) (environment : List (String × String)) :
    Except ConfigError Config := do
  let mut config := config
  if let some host := setting? environment Environment.host then
    config := { config with transport := { config.transport with host } }
  if let some value := setting? environment Environment.port then
    let port ← numberIn Environment.port UInt16.size value
    config := { config with transport := { config.transport with port := .ofNat port } }
  if let some value := setting? environment Environment.transportMode then
    let mode ← (TransportMode.ofText value).mapError .unknownMode
    config := { config with transport := { config.transport with mode } }
  if let some value := setting? environment Environment.connectTimeout then
    let n ← numberIn Environment.connectTimeout UInt64.size value
    config := { config with connectTimeout := .ofMilliseconds n }
  if let some value := setting? environment Environment.skipGasEstimation then
    match flagOfText? value with
    | some flag => config := { config with skipGasEstimation := flag }
    | none => throw (.badFlag Environment.skipGasEstimation value)
  return config

end Config

end DebugBridge

import DebugBridge.Bridge.Basic
import DebugBridge.Rehearsal.LocalAddress
import DebugBridge.Url

/-!
# Rehearsal/Endpoint — connecting where no debugger is

A bridge can listen only at an address of its own machine, and then nobody comes. Where it dials,
nobody accepts. What is wrong with a url or with an address in numbers shows at once; for a name the
bridge has to wait, and so it has to for a machine that refuses.

The port of an endpoint follows its last colon. An address of version 6 may stand in brackets.
-/

namespace DebugBridge

/-- An address to listen at. -/
structure Listener where
  address : LocalAddress
  port : UInt16
  deriving DecidableEq, Repr

namespace Listener

/-- The characters before the last colon and those after it. -/
def splitPort? (endpoint : String) : Option (List Char × List Char) :=
  match endpoint.toList.reverse.span (· != ':') with
  | (port, _ :: host) => some (host.reverse, port.reverse)
  | (_, []) => none

/-- The characters between brackets. -/
def bracketed? : List Char → Option (List Char)
  | '[' :: rest => if rest.getLast? = some ']' then some rest.dropLast else none
  | _ => none

/-- The address of a host. In brackets it is a number of version 6. -/
def address? (host : List Char) : Option LocalAddress :=
  match bracketed? host with
  | some host => Ipv6.number? (String.ofList host) >>= LocalAddress.ofNumber6?
  | none => LocalAddress.ofHost? (String.ofList host)

/-- **The listener at an endpoint**, if it is one of this machine. The port may have a plus sign,
but not after brackets. -/
def ofEndpoint? (endpoint : String) : Option Listener := do
  let (host, port) ← splitPort? endpoint
  let address ← address? host
  if (bracketed? host).isSome ∧ port.head? = some '+' then none
  else
    let port ← (boundedNumber UInt16.size (String.ofList port)).toOption
    return ⟨address, .ofNat port⟩

/-- Whether an endpoint is an address in numbers and a port in digits, so that there is no name to
look up. -/
def isNumeric (endpoint : String) : Bool :=
  match splitPort? endpoint with
  | none => false
  | some (host, port) =>
    port.head? != some '+' && (boundedNumber UInt16.size (String.ofList port)).isOk &&
      match bracketed? host with
      | some host => (Ipv6.number? (String.ofList host)).isSome
      | none => (Ipv4.strict? (String.ofList host)).isSome

end Listener

/-- How connecting goes, and whether the bridge has to wait to learn it. -/
structure Attempt where
  connecting : Connecting
  waits : Bool
  deriving DecidableEq, Repr

namespace Attempt

def established : Attempt := ⟨.established, false⟩

/-- The bridge waits for a debugger that does not come. -/
def unanswered : Attempt := ⟨.unanswered, true⟩

/-- Connecting fails at once. -/
def failed (error : TransportError) : Attempt := ⟨.failed error, false⟩

/-- Listening at an endpoint, where nobody comes. -/
def listening (endpoint : String) : Attempt :=
  match Listener.ofEndpoint? endpoint with
  | some _ => unanswered
  | none => ⟨.failed (.bind endpoint "address not available"), !Listener.isNumeric endpoint⟩

/-- Whether it takes time until nobody accepts at what follows the scheme of a url. This machine
takes its time to refuse; other machines cannot be reached. -/
def takesTime (target : String) : Bool :=
  match (Url.authority? target).map Url.host with
  | none => false
  | some host =>
    match Listener.bracketed? host with
    | some inner =>
      match Ipv6.number? (String.ofList inner) with
      | some n => n / UInt32.size == 0xFFFF && (Ipv4.ofNat n).isLoopback
      | none => true
    | none =>
      match Ipv4.strict? (String.ofList host) with
      | some n => (Ipv4.ofNat n).isLoopback
      | none => true

/-- Connecting where no debugger is. -/
def alone (t : TransportConfig) : Attempt :=
  match t.mode with
  | .listen => listening t.endpoint
  | .dial => ⟨.failed (.handshake t.url "no debugger accepts"), takesTime t.endpoint⟩

end Attempt

end DebugBridge

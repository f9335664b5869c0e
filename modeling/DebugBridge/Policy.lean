import DebugBridge.DebuggerState
import DebugBridge.EngineEvent

/-!
# Policy — which steps go to the debugger

The rules in their order: a step of a gas estimation may be suppressed; while the debugger runs up
to a program counter, that program counter alone decides; otherwise a step goes to the debugger if
it has a tag, or if the debugger wants every step.
-/

namespace DebugBridge

/-- How the scope of a breakpoint is taken. -/
inductive ScopeMode where
  /-- A breakpoint stands only in code of its flavour. -/
  | scoped
  /-- A breakpoint stands in all code. -/
  | insensitive
  deriving DecidableEq, Repr

/-- What becomes of a step. -/
inductive Decision where
  | skip
  | forward (tags : List StepTag)
  /-- The program counter that the request `id` waits for is reached. -/
  | runUntilHit (id : RequestId)
  deriving DecidableEq, Repr

/-- Whether the engine waits for the debugger. -/
def Decision.blocks : Decision → Bool
  | .skip => false
  | _ => true

namespace Policy

/-- The calls whose callstack the debugger follows. -/
def isSpecialCall (opcode : String) : Bool :=
  opcode == "DELEGATECALL"

def isJump (opcode : String) : Bool :=
  ["JUMP", "JUMPI", "JUMPDEST"].contains opcode

/-- Whether a live breakpoint stands at a step. -/
def hitsBreakpoint (s : DebuggerState) (mode : ScopeMode) (step : Step) : Bool :=
  match mode with
  | .scoped => s.breakpoints.hits step.address step.pc (s.isRuntime step.address)
  | .insensitive => s.breakpoints.hitsAnyScope step.address step.pc

/-- The tags of a step, in their order. -/
def tags (s : DebuggerState) (mode : ScopeMode) (step : Step) : List StepTag :=
  (if isSpecialCall step.opcode then [.specialEvent] else []) ++
    (if s.jumpDestinations.has step.address step.pc then [.jumpDestination]
      else if isJump step.opcode then [.jump] else []) ++
    (if s.declarations.has step.address step.pc then [.declaration] else []) ++
    (if hitsBreakpoint s mode step then [.breakpoint] else [])

/-- **What becomes of a step.** -/
def decide (s : DebuggerState) (skipGasEstimation : Bool) (mode : ScopeMode) (step : Step) :
    Decision :=
  if skipGasEstimation && step.estimatingGas then .skip
  else
    match s.runUntil with
    | some cursor => if step.pc == cursor.pc then .runUntilHit cursor.id else .skip
    | none =>
      let tags := tags s mode step
      if tags.isEmpty && s.fastStep then .skip else .forward tags

end Policy

end DebugBridge

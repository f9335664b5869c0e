import DebugBridge.Json.Fault

/-!
# Wire/Error — why a frame or a content is refused
-/

namespace DebugBridge

namespace Wire

/-- **The greatest number of containers around each other** that a written content has, reference
markers included. It leaves room for a chain of 1024 call frames. -/
def maxDepth : Nat := 1280

end Wire

/-- Why a message cannot be read or written. -/
inductive WireError where
  /-- The frame is no JSON or no envelope, or a content has not the shape of a command. -/
  | text (fault : TextFault)
  /-- The key of a reference stands next to other keys or names no text. -/
  | malformedReference (pointer : String)
  /-- A reference names a place that holds no container. -/
  | unresolvedReference (target : String)
  | tooDeep (depth : Nat)
  /-- A graph that can reach itself has no tree. -/
  | cycle
  deriving DecidableEq, Repr

namespace WireError

def message : WireError → String
  | .text .unfinished => "malformed frame: the text ends too early"
  | .text .malformed => "malformed frame: the text is no JSON"
  | .text (.shape fault) => "malformed frame: " ++ fault.message
  | .malformedReference pointer => s!"malformed reference marker at `{pointer}`"
  | .unresolvedReference target => s!"unresolved reference to `{target}`"
  | .tooDeep depth => s!"content nests {depth} levels deep, limit is {Wire.maxDepth}"
  | .cycle => "content graph contains a cycle and cannot be flattened"

end WireError

end DebugBridge

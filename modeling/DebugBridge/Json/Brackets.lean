/-!
# Json/Brackets — the nesting of a text

The nesting of a text is known before the text is parsed: one pass counts the brackets that are
open, leaving out those inside strings. A closing bracket without an opening one counts for nothing.
-/

namespace DebugBridge

namespace Json

/-- Where in a text the next byte stands. -/
inductive Place where
  | outside
  | inString
  | afterBackslash
  deriving DecidableEq, Repr

/-- How far a pass over a text has come. -/
structure BracketScan where
  place : Place
  depth : Nat
  deepest : Nat
  deriving DecidableEq, Repr

namespace BracketScan

def start : BracketScan := ⟨.outside, 0, 0⟩

def step (scan : BracketScan) (byte : UInt8) : BracketScan :=
  match scan.place with
  | .afterBackslash => { scan with place := .inString }
  | .inString =>
    if byte == 0x5C then { scan with place := .afterBackslash }
    else if byte == 0x22 then { scan with place := .outside }
    else scan
  | .outside =>
    if byte == 0x22 then { scan with place := .inString }
    else if byte == 0x7B || byte == 0x5B then
      ⟨.outside, scan.depth + 1, max scan.deepest (scan.depth + 1)⟩
    else if byte == 0x7D || byte == 0x5D then { scan with depth := scan.depth - 1 }
    else scan

end BracketScan

/-- **The greatest number of brackets open at once** in a text. -/
def bracketDepth (bytes : List UInt8) : Nat :=
  (bytes.foldl BracketScan.step .start).deepest

end Json

end DebugBridge

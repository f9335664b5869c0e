/-!
# Wire/Pointer — places in a written tree

A pointer names a place in a tree by the keys and indexes on the way to it, each after a slash. The
root is the empty pointer. In a key, a tilde is written `~0` and a slash `~1`, so a slash always
separates two steps.

Keys that start with a dollar sign are written with one more, which keeps the key `$ref` free for
references.
-/

namespace DebugBridge

namespace Wire

/-- The key of a reference marker. -/
def refKey : String := "$ref"

/-- The key under which a member is written. -/
def escapeKey (key : String) : String :=
  match key.toList with
  | '$' :: _ => "$" ++ key
  | _ => key

/-- The key of a member that is written under `key`. -/
def unescapeKey (key : String) : String :=
  match key.toList with
  | '$' :: '$' :: rest => String.ofList ('$' :: rest)
  | _ => key

/-- A character of a key as it stands in a pointer. -/
def tokenChar : Char → List Char
  | '~' => ['~', '0']
  | '/' => ['~', '1']
  | c => [c]

/-- A written key as a step of a pointer. -/
def token (key : String) : String :=
  String.ofList (key.toList.flatMap tokenChar)

/-- The place of a member, by the key it is written under. -/
def memberAt (pointer key : String) : String :=
  pointer ++ "/" ++ token key

/-- The place of an item of an array. -/
def itemAt (pointer : String) (index : Nat) : String :=
  pointer ++ "/" ++ toString index

theorem unescapeKey_escapeKey (key : String) : unescapeKey (escapeKey key) = key := by
  have ofList (cs : List Char) (h : key.toList = cs) : String.ofList cs = key := by
    rw [← h, String.ofList_toList]
  simp only [escapeKey]
  split
  · next rest h =>
    simp only [unescapeKey, String.toList_append, h]
    exact ofList _ h
  · next h =>
    simp only [unescapeKey]
    split
    · next rest h' => exact absurd h' (h _)
    · rfl

end Wire

end DebugBridge

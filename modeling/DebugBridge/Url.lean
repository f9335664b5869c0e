/-!
# Url — the form of a url

What follows the scheme of a url is an authority and, after it, a path, a query and a fragment, of
which none is needed.

```
  user:secret@[::1]:8455/path?query#fragment
```

The authority has user info up to its last at sign, a host, and a port after a colon. A host in
brackets may hold colons.
-/

namespace DebugBridge

namespace Url

/-- Whether a character ends an authority. -/
def endsAuthority (c : Char) : Bool :=
  c == '/' || c == '?' || c == '#'

/-- Whether a character stands for itself wherever it is in an authority. -/
def isPlain (c : Char) : Bool :=
  c.isAlphanum || "!$&\x27()*+,-.;=_~".toList.contains c

/-- What has been seen of an authority. Colons and percent signs count from the last at sign or
closing bracket on. -/
structure AuthorityScan where
  colons : Nat
  percent : Bool
  opened : Bool
  closed : Bool
  deriving DecidableEq, Repr

namespace AuthorityScan

def start : AuthorityScan := ⟨0, false, false, false⟩

/-- Goes on with a character, if it may stand there. -/
def next? (scan : AuthorityScan) (c : Char) : Option AuthorityScan :=
  match c with
  | ':' => if scan.colons < 8 then some { scan with colons := scan.colons + 1 } else none
  | '%' => some { scan with percent := true }
  | '@' => some { scan with colons := 0, percent := false }
  | '[' => if scan.percent || scan.opened then none else some { scan with opened := true }
  | ']' => if scan.opened && !scan.closed then some ⟨0, false, true, true⟩ else none
  | c => if isPlain c then some scan else none

end AuthorityScan

/-- Whether an authority is well formed. A percent sign stands only in the user info or in
brackets. -/
def isAuthority (cs : List Char) : Bool :=
  match cs.foldlM AuthorityScan.next? .start with
  | some scan =>
    scan.colons ≤ 1 && !scan.percent && scan.opened == scan.closed && cs.getLast?.any (· != '@')
  | none => false

def isPathChar (c : Char) : Bool :=
  ' ' < c && c != '<' && c != '>' && c != '\x60'

def isQueryChar (c : Char) : Bool :=
  ' ' < c && c != '<' && c != '>' && c != '\x22'

/-- Whether a path and a query are well formed. A fragment may hold anything. -/
def isPathAndQuery (cs : List Char) : Bool :=
  let (path, query) := (cs.takeWhile (· != '#')).span (· != '?')
  path.all isPathChar && (query.drop 1).all isQueryChar

/-- The most bytes of a url, which starts with `ws://`. -/
def maxSize : Nat := 65534

/-- **The authority of what follows the scheme**, if that is well formed. -/
def authority? (target : String) : Option (List Char) :=
  let (authority, rest) := target.toList.span (!endsAuthority ·)
  if "ws://".utf8ByteSize + target.utf8ByteSize ≤ maxSize ∧ isAuthority authority ∧
      isPathAndQuery rest then
    some authority
  else none

/-- The host of an authority, with the brackets it may have. -/
def host (authority : List Char) : List Char :=
  match (authority.reverse.takeWhile (· != '@')).reverse with
  | '[' :: rest => '[' :: rest.takeWhile (· != ']') ++ [']']
  | located => located.takeWhile (· != ':')

end Url

end DebugBridge

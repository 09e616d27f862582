/-
# Request targets

Where the query of a request target stands, and which texts are targets at all. A target is a path,
an asterisk, an authority, or a scheme, an authority and a path. The path and the query may hold
braces and characters beyond ASCII unescaped, and a path also quotes, but no control character of
ASCII; a fragment is dropped unread.
-/
import Listing.Text.Utf8

namespace Listing.Uri

/-- A character of one of the classes of the generic syntax: unreserved, reserved, or a bracket. -/
def isUriChar (c : Char) : Bool :=
  let n := c.toNat
  (48 ≤ n && n ≤ 57) || (65 ≤ n && n ≤ 90) || (97 ≤ n && n ≤ 122) ||
    "!#$&'()*+,-./:;=?@[]_~".toList.contains c

/-- A character of a scheme. -/
def isSchemeChar (c : Char) : Bool :=
  let n := c.toNat
  (48 ≤ n && n ≤ 57) || (65 ≤ n && n ≤ 90) || (97 ≤ n && n ≤ 122) || "+-.:~".toList.contains c

/-- A character that a path may hold. -/
def isPathChar (c : Char) : Bool :=
  let n := c.toNat
  n == 0x21 || n == 0x22 || (0x24 ≤ n && n ≤ 0x3B) || n == 0x3D || (0x40 ≤ n && n ≤ 0x5F) ||
    (0x61 ≤ n && n != 0x7F)

/-- A character that a query may hold. -/
def isQueryChar (c : Char) : Bool :=
  let n := c.toNat
  n == 0x21 || (0x24 ≤ n && n ≤ 0x3B) || n == 0x3D || (0x3F ≤ n && n != 0x7F)

/-- The longest target and the longest scheme, in bytes. -/
def maxLength : Nat := 65534
def maxSchemeLength : Nat := 64

/-- What reading an authority has seen: colons since the last `@` or `]`, the two brackets, and a
percent sign since then. -/
structure Authority where
  colons : Nat := 0
  opened : Bool := false
  closed : Bool := false
  percent : Bool := false

/-- Read one character of an authority; none where it cannot stand. -/
def Authority.step? (a : Authority) (c : Char) : Option Authority :=
  if c = ':' then (if 8 ≤ a.colons then none else some { a with colons := a.colons + 1 })
  else if c = '[' then (if a.percent || a.opened then none else some { a with opened := true })
  else if c = ']' then
    (if !a.opened || a.closed then none
    else some { a with closed := true, colons := 0, percent := false })
  else if c = '@' then some { a with colons := 0, percent := false }
  else if c = '%' then some { a with percent := true }
  else if isUriChar c then some a
  else none

/-- The characters that end an authority. -/
def endsAuthority (c : Char) : Bool := c == '/' || c == '?' || c == '#'

/-- Whether characters are an authority: brackets pair up, at most one colon follows the host,
no percent sign outside of the user part, and something follows an `@`. -/
def isAuthority (cs : List Char) : Bool :=
  match cs.foldlM Authority.step? {} with
  | none => false
  | some a => a.opened == a.closed && a.colons ≤ 1 && !a.percent && cs.getLast? != some '@'

/-- The length of the scheme that begins a text, if one does; a scheme that is too long is a
fault. -/
def schemeLength? (cs : List Char) : Except Unit (Option Nat) :=
  let length := (cs.takeWhile fun c => isSchemeChar c && c != ':').length
  if 3 < cs.length ∧ (cs.drop length).take 3 = [':', '/', '/'] then
    if maxSchemeLength < length then .error () else .ok (some length)
  else .ok none

/-- The query of a path with query and fragment, empty where there is none. -/
def queryOfPath? (cs : List Char) : Option String :=
  let cs := cs.takeWhile (· != '#')
  let path := cs.takeWhile (· != '?')
  let query := cs.drop (path.length + 1)
  if path.all isPathChar && query.all isQueryChar then some (String.ofList query) else none

/-- The query of a target, empty where it has none; `none` where the text is no target. -/
def query? (target : String) : Option String :=
  let cs := target.toList
  if cs.isEmpty || maxLength < target.utf8ByteSize then none
  else if cs = ['*'] then some ""
  else if cs.head? = some '/' then queryOfPath? cs
  else match schemeLength? cs with
    | .error () => none
    | .ok none => if isAuthority cs && !cs.any endsAuthority then some "" else none
    | .ok (some length) =>
      let rest := cs.drop (length + 3)
      let authority := rest.takeWhile (! endsAuthority ·)
      if authority.isEmpty || !isAuthority authority then none
      else queryOfPath? (rest.drop authority.length)

end Listing.Uri

/-
# Pages

Which part of the rows a request asks for: how many, from where on, and whether to count them all.
A page never exceeds the largest page size of its resource.
-/
import Listing.Error
import Listing.Options
import Listing.Params
import Listing.Resource.Basic
import Listing.Text.Upper

namespace Listing

/-- The page of a request; without a limit it is unbounded. -/
structure Paging where
  limit : Option Nat := none
  offset : Nat := 0
  /-- Whether to count all rows of the filter. -/
  wantTotal : Bool := false
  deriving DecidableEq, Repr, Inhabited

namespace Paging

/-- Read a boolean parameter. An empty value is true: the parameter is there. -/
def readBool? (text : String) : Option Bool :=
  let word := Text.lowerAscii (Text.trim text)
  if ["", "1", "true", "yes", "on"].contains word then some true
  else if ["0", "false", "no", "off"].contains word then some false
  else none

/-- The trimmed text of a parameter that is given and not blank. -/
def given? (text : Option String) : Option String :=
  (text.map Text.trim).filter (! ·.isEmpty)

/-- The page size that a request names. -/
def readLimit (text : Option String) : Result (Option Nat) :=
  match given? text with
  | none => .ok none
  | some text => match Number.readUnsigned? text with
    | some (n + 1) => .ok (some (n + 1))
    | _ => .error (.malformedParameter Param.limit (.notPositive text))

/-- The number of rows to skip. -/
def readOffset (text : Option String) : Result Nat :=
  match given? text with
  | none => .ok 0
  | some text => match Number.readUnsigned? text with
    | some n => .ok n
    | none => .error (.malformedParameter Param.offset (.notNatural text))

/-- Whether to count all rows. -/
def readWantTotal : Option String → Result Bool
  | none => .ok false
  | some text => match readBool? text with
    | some b => .ok b
    | none => .error (.malformedParameter Param.totalCount (.notBoolean text))

/-- The largest page size of a resource. -/
def maxLimit (resource : Resource) (options : Options) : Option Nat :=
  resource.maxLimit.or options.maxLimit

/-- The page size: the one requested, or the default one of the resource or of the options, but at
most the largest; where none of these is given, the largest. -/
def effectiveLimit (requested : Option Nat) (resource : Resource) (options : Options) :
    Option Nat :=
  match (requested.or resource.defaultLimit).or options.defaultLimit, maxLimit resource options with
  | some n, some largest => some (min n largest)
  | some n, none => some n
  | none, largest => largest

/-- The page that the three parameters ask for. -/
def read (limit offset totalCount : Option String) (resource : Resource) (options : Options) :
    Result Paging := do
  let requested ← readLimit limit
  let offset ← readOffset offset
  let wantTotal ← readWantTotal totalCount
  return { limit := effectiveLimit requested resource options, offset, wantTotal }

end Paging
end Listing

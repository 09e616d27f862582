/-
# Request parameters

The parameters of a request as a list of pairs. A key may occur several times; its values keep the
order in which they came. Nine keys are reserved for what is not a comparison.
-/
import Listing.Form

namespace Listing

namespace Param

def order : String := "order"
def limit : String := "limit"
def offset : String := "offset"
def relations : String := "relations"
def totalCount : String := "total_count"
def totals : String := "totals"
def search : String := "search"
def groupBy : String := "group_by"
def groupLimit : String := "group_limit"

/-- The keys that never name an attribute. -/
def reserved : List String :=
  [order, limit, offset, relations, totalCount, totals, search, groupBy, groupLimit]

/-- Whether a key is reserved. -/
def isReserved (key : String) : Bool := reserved.contains key

end Param

/-- The parameters of a request, in the order of arrival. -/
structure Params where
  pairs : List (String × String) := []
  deriving DecidableEq, Repr, Inhabited

namespace Params

/-- The parameters of a query string. -/
def ofQueryString (query : String) : Params := ⟨Form.decode query⟩

/-- One more parameter, after all others. -/
def push (p : Params) (key value : String) : Params := ⟨p.pairs ++ [(key, value)]⟩

/-- The first value under a key. -/
def get? (p : Params) (key : String) : Option String := p.pairs.lookup key

/-- All values under a key, in order. -/
def getAll (p : Params) (key : String) : List String :=
  p.pairs.filterMap fun (k, v) => if k = key then some v else none

/-- Add a value to those under its key; a new key goes to the end. -/
def addValue (key value : String) : List (String × List String) → List (String × List String)
  | [] => [(key, [value])]
  | (k, values) :: rest =>
    if k = key then (k, values ++ [value]) :: rest else (k, values) :: addValue key value rest

/-- The distinct keys in the order of their first occurrence, each with all of its values. -/
def grouped (p : Params) : List (String × List String) :=
  p.pairs.foldl (fun groups (key, value) => addValue key value groups) []

end Params
end Listing

/-
# Requests

A list request, read from its parameters: a filter, an order, a page, totals and the relations to
load. Nothing here depends on the store that will answer it.
-/
import Listing.Filter.Builder
import Listing.Request.Aggregate
import Listing.Request.Fetch
import Listing.Request.Order
import Listing.Request.Paging

namespace Listing

structure Request where
  filter : Option Filter := none
  order : Order := []
  paging : Paging := {}
  aggregate : Aggregate := {}
  fetch : Fetch := .none
  deriving Inhabited

/-- The texts of the parameters of a request, sorted by what they are for. -/
structure RequestTexts where
  filter : FilterBuilder := {}
  order : List String := []
  totals : List String := []
  groupBy : List String := []
  fetch : List String := []
  limit : Option String := none
  offset : Option String := none
  totalCount : Option String := none
  groupLimit : Option String := none

namespace RequestTexts

/-- The value of a parameter that may be given once. -/
def single (key : String) : List String → Result String
  | [value] => .ok value
  | _ => .error (.malformedParameter key .repeated)

/-- Add a parameter with all of its values. -/
def add (t : RequestTexts) (resource : Resource) (options : Options) (key : String)
    (values : List String) : Result RequestTexts :=
  if key = Param.order then .ok { t with order := t.order ++ values }
  else if key = Param.totals then .ok { t with totals := t.totals ++ values }
  else if key = Param.groupBy then .ok { t with groupBy := t.groupBy ++ values }
  else if key = Param.relations then .ok { t with fetch := t.fetch ++ values }
  else if key = Param.limit then do return { t with limit := some (← single key values) }
  else if key = Param.offset then do return { t with offset := some (← single key values) }
  else if key = Param.totalCount then do return { t with totalCount := some (← single key values) }
  else if key = Param.groupLimit then do return { t with groupLimit := some (← single key values) }
  else if key = Param.search then do
    let filter ← values.foldlM (fun b text => b.addDocument resource text) t.filter
    return { t with filter }
  else do return { t with filter := ← t.filter.addParam resource options key values }

/-- Read what was sorted. -/
def read (t : RequestTexts) (resource : Resource) (options : Options) : Result Request := do
  let order ← Order.read t.order
  let paging ← Paging.read t.limit t.offset t.totalCount resource options
  let aggregate ← Aggregate.read t.totals t.groupBy t.groupLimit
  return { filter := t.filter.build, order, paging, aggregate, fetch := Fetch.read t.fetch }

end RequestTexts

/-- The request that parameters make to a resource. -/
def Request.ofParams (params : Params) (resource : Resource) (options : Options) :
    Result Request := do
  let texts ← params.grouped.foldlM
    (fun (t : RequestTexts) group => t.add resource options group.1 group.2) {}
  texts.read resource options

end Listing

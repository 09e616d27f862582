/-
# Searches

A list request compiles to one search: what to find, in which order, which part of it, and the
totals. A search that is sorted does not rank what it finds.
-/
import Listing.Request.Basic
import Listing.SearchIndex.Aggregation
import Listing.SearchIndex.Condition

namespace Listing.SearchIndex

/-- One field to sort by, and the lists of objects that it lies in. -/
structure SortKey where
  field : String
  direction : Direction
  lists : List String
  deriving DecidableEq, Repr

/-- The JSON form of the lists of a sort, each inside of the one before it. -/
def nestedSort? : List String → Option Json
  | [] => none
  | path :: lists =>
    some (.object (("path", .string path) ::
      ((nestedSort? lists).map fun inner => ("nested", inner)).toList))

/-- The JSON form of a sort key. -/
def SortKey.toJson (k : SortKey) : Json :=
  Clause.entry k.field (.object (("order", .string (directionName k.direction)) ::
    ((nestedSort? k.lists).map fun inner => ("nested", inner)).toList))

/-- A compiled list request. -/
structure Query where
  index : String
  clause : Clause
  sort : List SortKey
  offset : Nat
  size : Option Nat
  /-- Whether to count everything that is found. -/
  countAll : Bool
  aggregations : Aggregations
  /-- The labels of the levels of buckets, outermost first. -/
  dimensions : List String
  metrics : List String
  deriving Repr

namespace Query

/-- The body of the search. -/
def body (q : Query) : Json :=
  .object ([("query", q.clause.toJson)] ++
    (if q.sort.isEmpty then [] else [("sort", .array (q.sort.map SortKey.toJson))]) ++
    [("from", .int q.offset)] ++
    (q.size.map fun n => ("size", Json.int n)).toList ++
    (if q.countAll then [("track_total_hits", .bool true)] else []) ++
    (if q.aggregations.isEmpty then []
      else [("aggs", .object (Aggregation.entries q.aggregations))]))

/-- The JSON form of a query. -/
def toJson (q : Query) : Json :=
  .object [("index", .string q.index), ("body", q.body),
    ("dimensions", Json.strings q.dimensions), ("metrics", Json.strings q.metrics)]

/-- The totals in the answer of the index, one row for each innermost bucket. -/
def totalsRows (q : Query) (answer : Json) : List (List (String × Json)) :=
  rowsFrom q.metrics [] q.dimensions answer

end Query

/-- One item of the order of a search. -/
def Target.sortKey (t : Target) (item : OrderItem) : Result SortKey := do
  let field ← t.field Param.order item.path
  return { field := field.term, direction := item.direction, lists := field.lists }

/-- A field to group by or to compute of. It must lie in no list of objects. -/
def Target.plainField (t : Target) (param : String) (path : Path) : Result String := do
  let field ← t.field param path
  if field.lists.isEmpty then return field.term
  else .error (unsupported param (.nestedAggregate path))

/-- A group with its label. -/
def Target.dimension (t : Target) (path : Path) : Result (String × String) := do
  return (path.label, ← t.plainField Param.groupBy path)

/-- A metric with its field. -/
def Target.metricField (t : Target) (m : Metric) : Result MetricField := do
  return {
    label := m.label
    function := m.function
    field := ← m.path.mapM (t.plainField Param.totals) }

/-- Compile a request. -/
def Target.compile (t : Target) (request : Request) : Result Query := do
  let filter ← request.filter.mapM t.condition
  let sort ← request.order.mapM t.sortKey
  let dimensions ← request.aggregate.groupBy.mapM t.dimension
  let metrics ← request.aggregate.metrics.mapM t.metricField
  return {
    index := t.resource.storage
    clause := match filter with
      | some found => if sort.isEmpty then found.close else .unranked found.close
      | none => .matchAll
    sort
    offset := request.paging.offset
    size := request.paging.limit
    countAll := request.paging.wantTotal
    aggregations := bucketLevels metrics request.aggregate.groupLimit dimensions
    dimensions := dimensions.map (·.1)
    metrics := metrics.map (·.label) }

end Listing.SearchIndex

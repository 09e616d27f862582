/-
# Aggregations

Totals of a search. Groups are nested buckets, one level for each group, and the metrics are
computed inside of the innermost ones. The answer of the index has the same shape; reading it gives
one row for each innermost bucket.
-/
import Listing.Json.Basic
import Listing.Request.Aggregate
import Listing.Request.Order
import Listing.SearchIndex.Clause

namespace Listing.SearchIndex

inductive Aggregation
  /-- The number of all documents. -/
  | documents
  /-- A function of a field. -/
  | metric (function field : String)
  /-- One bucket for each value of a field: at most `size` of them, those first in order. -/
  | buckets (field : String) (size : Nat) (order : List (String × Direction))
      (inner : List (String × Aggregation))
  deriving Repr, Inhabited

/-- Aggregations under their labels. -/
abbrev Aggregations := List (String × Aggregation)

/-- The name of a direction. -/
def directionName : Direction → String
  | .ascending => "asc"
  | .descending => "desc"

mutual
/-- The JSON form of an aggregation. -/
def Aggregation.toJson : Aggregation → Json
  | .documents => Clause.entry "filter" Clause.matchAll.toJson
  | .metric function field => Clause.entry function (Clause.entry "field" (.string field))
  | .buckets field size order inner =>
    let terms := Json.object [("field", .string field), ("size", .int size),
      ("order", .array (order.map fun (key, d) => Clause.entry key (.string (directionName d))))]
    .object (("terms", terms) ::
      if inner.isEmpty then [] else [("aggs", .object (Aggregation.entries inner))])

/-- The JSON forms of several aggregations, under their labels. -/
def Aggregation.entries : Aggregations → List (String × Json)
  | [] => []
  | (label, a) :: rest => (label, a.toJson) :: Aggregation.entries rest
end

/-- The number of buckets of a level that has no limit. -/
def defaultBuckets : Nat := 10000

/-- What buckets can be ordered by besides the metrics: their key and their number of documents. -/
def keyOrder : String := "_key"
def countOrder : String := "_count"

/-- A metric with the field it is computed of; without a field it counts documents. -/
structure MetricField where
  label : String
  function : MetricFunction
  field : Option String
  deriving Repr

/-- The aggregation of a metric. The documents of a bucket are counted without one. -/
def MetricField.aggregation? (grouped : Bool) (m : MetricField) : Option Aggregation :=
  match m.field with
  | none => if grouped then none else some .documents
  | some field =>
    some (.metric (if m.function = .count then "value_count" else m.function.name) field)

/-- The aggregations of metrics. -/
def metricAggregations (grouped : Bool) (metrics : List MetricField) : Aggregations :=
  metrics.foldl (fun acc m => match m.aggregation? grouped with
    | some a => insertEntry m.label a acc
    | none => acc) []

/-- The order of innermost buckets: by the metrics descending, then by key ascending. -/
def bucketOrder (metrics : List MetricField) : List (String × Direction) :=
  metrics.map (fun m =>
    (if m.field.isNone then countOrder else m.label, Direction.descending)) ++
    [(keyOrder, .ascending)]

/-- The buckets of groups, outermost first, around the metrics. -/
def bucketLevels (metrics : List MetricField) (limit : Option Nat) :
    List (String × String) → Aggregations
  | [] => metricAggregations false metrics
  | [(label, field)] =>
    [(label, .buckets field (limit.getD defaultBuckets) (bucketOrder metrics)
      (metricAggregations true metrics))]
  | (label, field) :: dimensions =>
    [(label, .buckets field defaultBuckets [(keyOrder, .ascending)]
      (bucketLevels metrics limit dimensions))]

/-- The value of a metric in the answer: its own, or the number of documents that it counted, or
else that of the bucket. -/
def metricValue (bucket : Json) (label : String) : Json :=
  let value := match bucket.get? label with
    | some answer => (answer.get? "value").or (answer.get? "doc_count")
    | none => bucket.get? "doc_count"
  value.getD .null

/-- The buckets of a level of the answer. -/
def bucketsOf (answer : Json) (label : String) : List Json :=
  ((answer.get? label).bind (·.get? "buckets") |>.bind Json.asArray?).getD []

/-- The rows of an answer, one for each innermost bucket, after the groups already in `row`. -/
def rowsFrom (metrics : List String) (row : List (String × Json)) :
    List String → Json → List (List (String × Json))
  | [], answer =>
    [metrics.foldl (fun row label => insertEntry label (metricValue answer label) row) row]
  | label :: dimensions, answer =>
    (bucketsOf answer label).flatMap fun bucket =>
      rowsFrom metrics (insertEntry label ((bucket.get? "key").getD .null) row) dimensions bucket

end Listing.SearchIndex

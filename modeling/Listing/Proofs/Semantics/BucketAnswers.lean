/-
# Answers to aggregations

An index answers aggregations with an object that has a member for each of them, under its label. A
level of buckets is answered by a list. A bucket has the value that its documents share and their
number, and next to these members the answers to the aggregations inside of it.

A table of totals can be written as such an answer: a bucket for each value of the outermost group,
in it a bucket for each value of the next one, and the metrics of a row in the innermost ones.
-/
import Listing.Proofs.TotalsColumns
import Listing.Proofs.TotalsTrees
import Mathlib.Algebra.GroupWithZero.Nat

namespace Listing

/-- Where the answer to a metric stands: in an aggregation of its own, or, for a number of documents
in a bucket, next to its key. -/
def Metric.answer? (m : Metric) (grouped : Bool) (node : Json) : Option Json :=
  match m.path with
  | some _ => node.at? [m.label, "value"]
  | none => if grouped then node.get? "doc_count" else node.at? [m.label, "doc_count"]

namespace SearchIndex

/-! ### The shape of an answer -/

/-- A value that documents are grouped by. -/
inductive GroupValue
  | null
  | bool (value : Bool)
  | int (value : Int)
  | double (value : Double)
  | text (value : String)
  deriving DecidableEq

def GroupValue.toJson : GroupValue → Json
  | .null => .null
  | .bool value => .bool value
  | .int value => .int value
  | .double value => .double value
  | .text value => .string value

/-- The members that a bucket may have of its own. -/
def bucketMembers : List String :=
  ["key", "key_as_string", "doc_count", "doc_count_error_upper_bound"]

/-- A bucket has the value of a group under `key`. It has a number of documents, if there is no
aggregation of this name inside, and no members besides its own ones and answers. -/
structure IsBucket (inner : Aggregations) (bucket : Json) : Prop where
  key : ∃ value : GroupValue, bucket.get? "key" = some value.toJson
  documents : "doc_count" ∉ inner.map (·.1) → ∃ n : Nat, bucket.get? "doc_count" = some (.int n)
  members : ∀ name, (bucket.get? name).isSome → name ∈ bucketMembers ∨ name ∈ inner.map (·.1)

mutual
/-- An answer to an aggregation. -/
def Aggregation.IsAnsweredBy : Aggregation → Json → Prop
  | .documents, answer =>
    answer.get? "value" = none ∧ ∃ n : Nat, answer.get? "doc_count" = some (.int n)
  | .metric _ _, answer => ∃ value, answer.get? "value" = some value
  | .buckets _ _ _ inner, answer => ∃ buckets, answer.get? "buckets" = some (.array buckets) ∧
    ∀ bucket ∈ buckets, IsBucket inner bucket ∧ AreAnsweredBy inner bucket

/-- An answer to several aggregations has one to each of them, under its label. -/
def AreAnsweredBy : Aggregations → Json → Prop
  | [], _ => True
  | (label, a) :: rest, answer =>
    (∃ own, answer.get? label = some own ∧ a.IsAnsweredBy own) ∧ AreAnsweredBy rest answer
end

/-! ### The rows of an answer -/

/-- The buckets on the way to each innermost one, outermost first. -/
def bucketPaths : List String → Json → List (List Json)
  | [], _ => [[]]
  | label :: labels, answer =>
    match answer.at? [label, "buckets"] with
    | some (.array buckets) =>
      buckets.flatMap fun bucket => (bucketPaths labels bucket).map (bucket :: ·)
    | _ => []

/-- The row of an innermost bucket has a column for each group, with the key of the bucket of its
level, and one for each metric, with its answer in the innermost bucket. Where nothing is grouped,
the metrics are those of the whole answer. -/
structure IsRowOf (a : Aggregate) (answer : Json) (path : List Json) (row : Row) : Prop where
  labels : row.map (·.1) = a.columnLabels
  groups : List.Forall₂ (fun (p : Path) (bucket : Json) =>
    ∃ key, bucket.get? "key" = some key ∧ row.lookup p.label = some key) a.groupBy path
  metrics : ∀ m ∈ a.metrics, ∃ value,
    m.answer? (!a.groupBy.isEmpty) (path.getLastD answer) = some value ∧
      row.lookup m.label = some value

/-! ### Tables -/

/-- A row of totals: the values of its groups, how many documents have them, and the values that
metrics have in these documents. -/
structure TotalsRow where
  group : Path → GroupValue
  documents : Nat
  value : Metric → Json

namespace TotalsRow

/-- The value of a metric; a bare count is the number of documents. -/
def cell (r : TotalsRow) (m : Metric) : Json :=
  match m.path with
  | some _ => r.value m
  | none => .int r.documents

/-- The values of some groups. -/
def groups (r : TotalsRow) (paths : List Path) : List GroupValue := paths.map r.group

/-- The columns of a row: its groups, then its metrics. -/
def columns (paths : List Path) (metrics : List Metric) (r : TotalsRow) : Row :=
  paths.map (fun p => (p.label, (r.group p).toJson)) ++ metrics.map fun m => (m.label, r.cell m)

end TotalsRow

/-- A table of totals has different groups in each row. Where nothing is grouped, it has one row. -/
structure IsTable (paths : List Path) (rows : List TotalsRow) : Prop where
  distinct : (rows.map (·.groups paths)).Nodup
  ungrouped : paths = [] → rows ≠ []

/-- Rows that agree in their first groups stand together. -/
def AreGathered (paths : List Path) (rows : List TotalsRow) : Prop :=
  ∀ first between last, [first, between, last].Sublist rows → ∀ n,
    (first.groups paths).take n = (last.groups paths).take n →
      (between.groups paths).take n = (first.groups paths).take n

/-- The answer to a metric of a row. In a bucket, documents are counted without one. -/
def metricMember? (grouped : Bool) (r : TotalsRow) (m : Metric) : Option (String × Json) :=
  match m.path with
  | some _ => some (m.label, .object [("value", r.value m)])
  | none => if grouped then none else some (m.label, .object [("doc_count", .int r.documents)])

/-- The answers to the metrics of a row. -/
def metricMembers (grouped : Bool) (metrics : List Metric) (r : TotalsRow) :
    List (String × Json) :=
  metrics.filterMap (metricMember? grouped r)

/-- A bucket with the answers to the aggregations inside of it. Of two members with one name, an
object keeps the later one. -/
def bucketOf (key : GroupValue) (documents : Nat) (inner : List (String × Json)) : Json :=
  .ofEntries ([("key", key.toJson), ("doc_count", .int documents)] ++ inner)

/-- The answers that a table is written as: a bucket for each value of the outermost group, around
the answers for the rows that have it. -/
def answers (grouped : Bool) (metrics : List Metric) :
    List Path → List TotalsRow → List (String × Json)
  | [], rows => rows.flatMap (metricMembers grouped metrics)
  | p :: paths, rows =>
    let buckets := (rows.map (·.group p)).eraseDups.map fun value =>
      let inside := rows.filter (·.group p = value)
      bucketOf value (inside.map (·.documents)).sum (answers grouped metrics paths inside)
    [(p.label, .object [("buckets", .array buckets)])]

/-- The answer that a table is written as. -/
def encode (a : Aggregate) (rows : List TotalsRow) : Json :=
  .object (answers (!a.groupBy.isEmpty) a.metrics a.groupBy rows)

/-- A table is given back: written as an answer, it is one to the aggregations of the query, and the
rows that are read from it are those of the table. They are in the same order, if rows that agree in
their first groups stand together. -/
structure Query.GivesBack (q : Query) (a : Aggregate) (rows : List TotalsRow) : Prop where
  answered : AreAnsweredBy q.aggregations (encode a rows)
  perm : (q.totalsRows (encode a rows)).Perm (rows.map (·.columns a.groupBy a.metrics))
  gathered : AreGathered a.groupBy rows →
    q.totalsRows (encode a rows) = rows.map (·.columns a.groupBy a.metrics)

end SearchIndex
end Listing

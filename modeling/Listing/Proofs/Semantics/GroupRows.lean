/-
# Rows of grouped totals

A row of grouped totals has a value for every group and for every metric that was asked for. The
order of such rows does not depend on the store: parent groups come first, from the outermost, then
the metrics, largest first, and the innermost group decides between rows that are alike up to there.

What holds the values of a row differs. A select computes them over a group of joined rows, and a
select that ranks groups finds them under labels; a document of a pipeline has fields; and in a
search a row is a path of buckets, one inside of the other, whose innermost one has the metrics.
Each of them is compared here by what the store was told to order by.
-/
import Listing.Document.Totals
import Listing.Proofs.Semantics.DocumentFilter
import Listing.Proofs.Semantics.Ordering
import Listing.Proofs.Semantics.SqlSelect
import Listing.SearchIndex.Aggregation
import Listing.Sql.Totals

namespace Listing

/-- What a row of grouped totals has a value for. -/
inductive GroupKey
  | group (path : Path)
  | metric (m : Metric)
  deriving DecidableEq

/-- The name of a group or a metric in results. -/
def GroupKey.label : GroupKey → String
  | .group path => path.label
  | .metric m => m.label

/-- The values of a row of grouped totals. -/
abbrev GroupRow := GroupKey → Datum

namespace Aggregate

/-- What the columns of grouped totals are for. -/
def keys (a : Aggregate) : List GroupKey := a.groupBy.map .group ++ a.metrics.map .metric

/-- The row that has these values in its columns. -/
def row (a : Aggregate) (values : List Datum) : GroupRow := fun key =>
  ((a.keys.zip values).lookup key).getD .null

/-- The order of grouped totals: parent groups ascending, then the metrics descending, then the
innermost group ascending. -/
def order (a : Aggregate) : List (GroupKey × Direction) :=
  match a.groupBy.getLast? with
  | none => []
  | some innermost =>
    a.groupBy.dropLast.map (fun path => (.group path, .ascending)) ++
      a.metrics.map (fun m => (.metric m, .descending)) ++ [(.group innermost, .ascending)]

end Aggregate

namespace Sql

/-- The value of an expression for a group of joined rows. -/
def Engine.evalGroup (engine : Engine) (group : List Scope) (e : Expr) : Datum :=
  engine.eval (group.map Scope.env) (group.headD []).env e

/-- The comparison of two groups by the order of a select. -/
def Select.compareGroups (c : Collation) (engine : Engine) (s : Select)
    (group group' : List Scope) : Ordering :=
  c.compareBy (s.orderBy.map fun term => (term.expr, term.direction))
    (engine.evalGroup group) (engine.evalGroup group')

/-- The value in a column of a result. -/
def Output.datum : Output → Datum
  | .record _ => .null
  | .value _ x => x

/-- The row of totals that a select returns for a group. -/
def Select.groupRow (a : Aggregate) (engine : Engine) (s : Select) (group : List Scope) :
    GroupRow :=
  a.row ((s.output engine group).map Output.datum)

/-- The values in a result under a label. -/
def Output.values (label : String) (outputs : List Output) : List Datum :=
  outputs.filterMap fun
    | .value other x => if other = label then some x else none
    | .record _ => none

theorem Output.values_cons (label other : String) (x : Datum) (outputs : List Output) :
    Output.values label (.value other x :: outputs) =
      if other = label then x :: Output.values label outputs
      else Output.values label outputs := by
  by_cases hlabel : other = label <;> simp [Output.values, hlabel]

/-- What a select over another one can name: a value of the result, if its label is the only one. -/
def Ranked.env (r : Ranked) (outputs : List Output) : Env where
  column table label :=
    match Output.values label outputs with
    | [x] => if table = r.aliasName then x else .null
    | _ => .null
  own label :=
    match Output.values label outputs with
    | [x] => x
    | _ => .null

/-- The comparison of two groups by the order of a select that has ranked them. -/
def Ranked.compareGroups (c : Collation) (engine : Engine) (r : Ranked)
    (group group' : List Scope) : Ordering :=
  let x := r.env (r.inner.output engine group)
  let y := r.env (r.inner.output engine group')
  c.compareBy (r.orderBy.map fun term => (term.expr, term.direction))
    (engine.eval [x] x) (engine.eval [y] y)

end Sql

/-- The field of a group or a metric in a document of grouped totals. -/
def GroupKey.field : GroupKey → String
  | .group path => Document.idField path.label
  | .metric m => m.label

/-- The row of totals that a document holds. -/
def Document.groupRow (d : Fields) : GroupRow := d ∘ GroupKey.field

namespace SearchIndex

/-- What a bucket can be ordered by: its key, the number of its documents, and its metrics under
their labels. -/
abbrev Bucket := String → Datum

/-- The comparison of two innermost buckets, given by the paths of buckets that lead to them: by
the order of the outermost level, and where that leaves them alike by those further inside. -/
def compareBuckets (c : Collation) : Aggregations → List Bucket → List Bucket → Ordering
  | [(_, .buckets _ _ order inner)], bucket :: path, bucket' :: path' =>
    (c.compareBy order bucket bucket').then (compareBuckets c inner path path')
  | _, _, _ => .eq

/-- What buckets hold a metric under. A bucket counts its documents by itself. -/
def metricOrder (m : Metric) : String := if m.path.isNone then countOrder else m.label

/-- The row of totals that a path of buckets leads to. -/
def groupRow (a : Aggregate) (path : List Bucket) : GroupRow
  | .group p => (((a.groupBy.zip path).lookup p).map (· keyOrder)).getD .null
  | .metric m => (path.getLast?.map (· (metricOrder m))).getD .null

end SearchIndex
end Listing

/-
# Totals of rows

The groups and metrics of a request as one statement over the rows that its filter selects. Paths
of totals have joins of their own, under aliases that no join of the filter has. Where a join may
repeat rows, a plain count counts primary keys. Groups are ordered by their parents, then by their
metrics; with a limit, only the first groups of each parent are kept, which takes a select that
ranks them.
-/
import Listing.Request.Aggregate
import Listing.Sql.Selection

namespace Listing.Sql

/-- The totals of a request, and which columns of their rows hold groups and which metrics. -/
structure TotalsQuery where
  statement : Statement
  /-- The columns of group values, outermost group first. -/
  dimensions : List String
  metrics : List String
  deriving Repr

/-- What the alias of every join of the totals begins with. -/
def totalsStem : String := "totals_"

/-- The expression of a metric over its argument. With a primary key given, rows are counted by
it. -/
def metricExpr (distinctKey : Option Expr) : MetricFunction → Option Expr → Expr
  | .count, none => match distinctKey with
    | some key => .countDistinct key
    | none => .countRows
  | .count, some e => .call "COUNT" [e]
  | .sum, some e => .call "SUM" [e]
  | .avg, some e => .call "AVG" [e]
  | .min, some e => .call "MIN" [e]
  | .max, some e => .call "MAX" [e]
  | _, none => .countRows

/-- The key by which rows are counted where joins repeat them; a key of several columns cannot be
counted. -/
def Target.countKey (t : Target) (joins : Joins) : Option Expr :=
  match t.resource.primaryKey with
  | [column] =>
    if joins.hasToMany then some (.column t.resource.storage column) else none
  | _ => none

/-- An expression under a label. -/
abbrev Labelled := String × Expr

/-- The order of groups: parent groups ascending, then the metrics descending, then the innermost
group ascending. `expr` says what stands for a label. -/
def groupOrder (dimensions metrics : List Labelled) (expr : String → Expr) : List OrderTerm :=
  match dimensions.getLast? with
  | none => []
  | some innermost =>
    dimensions.dropLast.map (fun d => ⟨expr d.1, .ascending⟩) ++
      metrics.map (fun m => ⟨expr m.1, .descending⟩) ++ [⟨expr innermost.1, .ascending⟩]

/-- The alias of the grouped rows and the column of their ranks. -/
def groupedAlias : String := "grouped"
def rankLabel : String := "group_rank"

/-- The rank of a group among those of its parent group. -/
def rankExpr (parents metrics : List Labelled) : Expr :=
  let partition :=
    if parents.isEmpty then "" else "PARTITION BY " ++ holes ", " parents ++ " "
  .template ("ROW_NUMBER() OVER (" ++ partition ++ "ORDER BY " ++
      ", ".intercalate (metrics.map fun _ => hole ++ " DESC") ++ ")")
    (parents.map (·.2) ++ metrics.map (·.2))

/-- The largest bound of a rank. -/
def maxBound : Nat := Number.twoTo 63 - 1

/-- The statement of totals. -/
def totalsStatement (grouped : Select) (dimensions metrics : List Labelled)
    (limit : Option Nat) : Statement :=
  match limit, dimensions.getLast? with
  | some n, some _ =>
    .ranked {
      inner := { grouped with
        columns := grouped.columns ++ [.named (rankExpr dimensions.dropLast metrics) rankLabel] }
      aliasName := groupedAlias
      labels := (dimensions ++ metrics).map (·.1)
      rank := rankLabel
      bound := min n maxBound
      orderBy := groupOrder dimensions metrics fun label => .column groupedAlias label }
  | _, _ =>
    .select { grouped with
      orderBy := groupOrder dimensions metrics fun label =>
        ((dimensions ++ metrics).lookup label).getD (.ownColumn label) }

/-- A group with its label. -/
def Target.dimension (t : Target) (path : Path) : Result Labelled := do
  return (path.label, ← t.column totalsStem Param.groupBy path)

/-- A metric with its argument. -/
def Target.metricArgument (t : Target) (m : Metric) : Result (Metric × Option Expr) := do
  return (m, ← m.path.mapM (t.column totalsStem Param.totals))

/-- The totals of a selection. -/
def Target.totals (t : Target) (selection : Selection) (a : Aggregate) :
    Result (Option TotalsQuery) := do
  if a.isEmpty then return none
  let dimensions ← a.groupBy.mapM t.dimension
  let arguments ← a.metrics.mapM t.metricArgument
  let joins := (t.noJoins totalsStem).addPaths t.registry a.paths
  let metrics := arguments.map fun (m, argument) =>
    (m.label, metricExpr (t.countKey joins) m.function argument)
  let grouped : Select := {
    columns := (dimensions ++ metrics).map fun (label, e) => .named e label
    table := t.resource.storage
    joins := selection.joins ++ t.joinsOf joins
    restriction := selection.restriction
    groupBy := dimensions.map (·.2) }
  return some {
    statement := totalsStatement grouped dimensions metrics a.groupLimit
    dimensions := dimensions.map (·.1)
    metrics := metrics.map (·.1) }

end Listing.Sql

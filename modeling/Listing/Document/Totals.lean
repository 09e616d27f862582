/-
# Totals of documents

The groups and metrics of a request as the stages of a pipeline, which follow those that select
documents. Lists of referenced documents are unwound first; as that repeats documents, a plain count
is then the size of the set of their identities. Groups are ordered by their parents, then by their
metrics; with a limit, only the first groups of each parent are kept.
-/
import Listing.Document.Lookup
import Listing.Request.Aggregate

namespace Listing.Document

/-- The pipeline of totals, and which fields of its documents hold groups and which metrics. -/
structure TotalsQuery where
  pipeline : List Stage
  dimensions : List String
  metrics : List String
  deriving Repr

/-- What the alias of every lookup of the totals begins with. -/
def totalsStem : String := "totals_"

/-- What a metric computes of a group. Where unwound lists repeat documents, a plain count collects
their identities. -/
def accumulator (distinct : Bool) : MetricFunction → Option String → Accumulator
  | .count, none => if distinct then .identities else .countAll
  | .count, some field => .countPresent field
  | _, none => .countAll
  | function, some field => .over ("$" ++ function.name) field

/-- The field of the identity of a group under a label. -/
def idField (label : String) : String := "_id." ++ label

/-- The order of groups: parent groups ascending, then the metrics descending, then the innermost
group ascending. -/
def groupOrder (dimensions metrics : List String) : List (String × Direction) :=
  match dimensions.getLast? with
  | none => []
  | some innermost =>
    sortKeys (dimensions.dropLast.map (fun label => (idField label, .ascending)) ++
      metrics.map (·, .descending) ++ [(idField innermost, .ascending)])

/-- The field that gathers the groups of one parent. -/
def rowsField : String := "rows"

/-- The stages that keep the first groups of each parent, in order. -/
def limitStages (parents : List String) (order : List (String × Direction)) (limit : Nat) :
    List Stage :=
  if parents.isEmpty then [.limit limit]
  else
    [.group (parents.map fun label => (label, idField label)) [(rowsField, .documents)],
     .project [(rowsField, .firstOf rowsField limit)],
     .unwind rowsField false,
     .promote rowsField,
     .sort order]

/-- The stages that order groups and keep the first of them. -/
def orderStages (dimensions metrics : List String) (limit : Option Nat) : List Stage :=
  if dimensions.isEmpty then []
  else
    let order := groupOrder dimensions metrics
    .sort order :: (limit.map (limitStages dimensions.dropLast order)).getD []

/-- The shape of the documents of totals: groups and metrics under their labels. -/
def resultShape (dimensions metrics : List String) : List (String × Projection) :=
  let fields := ("_id", Projection.hidden) ::
    dimensions.map (fun label => (label, .renamed (idField label))) ++
    metrics.map (·, .shown)
  fields.foldl (fun acc field => insertEntry field.1 field.2 acc) []

/-- A metric with the field that it is computed of. -/
def Target.metricField (t : Target) (m : Metric) : Result (Metric × Option String) := do
  return (m, ← m.path.mapM (t.field totalsStem Param.totals))

/-- The totals over the documents that some stages select. -/
def Target.totals (t : Target) (base : List Stage) (a : Aggregate) :
    Result (Option TotalsQuery) := do
  if a.isEmpty then return none
  let dimensions ← a.groupBy.mapM fun path => do
    return (path.label, ← t.field totalsStem Param.groupBy path)
  let arguments ← a.metrics.mapM t.metricField
  let joins := (t.noJoins totalsStem).addPaths t.registry a.paths
  let distinct := joins.hasToMany
  let labels := dimensions.map (·.1)
  let metrics := a.metrics.map (·.label)
  let accumulators := arguments.map fun (m, field) =>
    (m.label, accumulator distinct m.function field)
  let sets := accumulators.filterMap fun (label, a) => match a with
    | .identities => some label
    | _ => none
  return some {
    pipeline := base ++ lookups joins ++ unwindStages joins ++
      [.group dimensions accumulators] ++
      (if sets.isEmpty then [] else [.lengths sets]) ++
      orderStages labels metrics a.groupLimit ++
      [.project (resultShape labels metrics)]
    dimensions := labels
    metrics }

end Listing.Document

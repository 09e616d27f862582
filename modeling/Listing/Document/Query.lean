/-
# Document queries

A list request compiles to a pipeline for the page and, where they are asked for, to one for the
number of documents and one for the totals. Referenced documents are looked up ahead of the filter
and removed again before the page is returned; the relations that the request wants loaded are
looked up last.
-/
import Listing.Document.Totals
import Listing.Request.Basic

namespace Listing.Document

/-- The keys of the order of a page. -/
def Target.order (t : Target) (order : Order) : Result (List (String × Direction)) := do
  let keys ← order.mapM fun item => do
    return (← t.field Joins.defaultStem Param.order item.path, item.direction)
  return sortKeys (if keys.isEmpty then t.resource.primaryKey.map (·, .ascending) else keys)

/-- The stages that load the relations that a request wants. -/
def Target.fetchStages (t : Target) (fetch : Fetch) : Result (List Stage) := do
  let relations ← t.resource.fetched fetch
  let stages ← (relations.filter (! ·.embedded)).mapM fun relation =>
    match t.registry.resource? relation.target with
    | none => .error (.invalidRelationPath Param.relations relation.name)
    | some target =>
      .ok (lookupStages relation target.storage relation.localKey relation.name)
  return stages.flatten

/-- A compiled list request. -/
structure Query where
  collection : String
  pipeline : List Stage
  /-- The number of documents, where it was asked for. -/
  countPipeline : Option (List Stage)
  totals : Option TotalsQuery
  deriving Repr

/-- The field that holds the number of documents. -/
def countLabel : String := "total"

/-- Compile a request. -/
def Target.compile (t : Target) (request : Request) : Result Query := do
  let stem := Joins.defaultStem
  let filter ← request.filter.mapM (t.condition stem)
  let order ← t.order request.order
  let paths := (request.filter.map Filter.paths).getD [] ++ request.order.map (·.path)
  let joins := (t.noJoins stem).addPaths t.registry paths
  let base := lookups joins ++ filter.toList.map .keep
  let added := lookupFields joins
  let fetch ← t.fetchStages request.fetch
  let totals ← t.totals base request.aggregate
  return {
    collection := t.resource.storage
    pipeline := base ++ [.sort order] ++
      (if request.paging.offset = 0 then [] else [.skip request.paging.offset]) ++
      request.paging.limit.toList.map .limit ++
      (if added.isEmpty then [] else [.unset added]) ++ fetch
    countPipeline :=
      if request.paging.wantTotal then some (base ++ [.count countLabel]) else none
    totals }

end Listing.Document

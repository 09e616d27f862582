/-
# Lookups

How the end of a route is reached in a pipeline. Documents of an embedded relation are part of the
document that is listed; referenced documents are looked up, and put under the alias of their
route.
-/
import Listing.Document.Condition
import Listing.Document.Stage

namespace Listing.Document

/-- The stages that look up the documents of a relation; a relation to one is unwound. -/
def lookupStages (relation : Relation) (collection localField label : String) : List Stage :=
  let lookup := Stage.lookup collection localField relation.foreignKey label
  if relation.many then [lookup] else [lookup, .unwind label true]

/-- How a route is reached in a pipeline. -/
inductive Reached
  /-- In the document, under a path. -/
  | embedded (path : String)
  /-- Under an alias, by stages of its own. -/
  | lookedUp (label : String) (stages : List Stage)

/-- How the end of a route is reached from where the route before it ends. -/
def reach (stem : String) (route : Route) : Option Reached :=
  route.getLast?.map fun hop =>
    if hop.relation.embedded then .embedded ((fieldOfRoute stem route).getD "")
    else
      let localField := below (fieldOfRoute stem route.dropLast) hop.relation.localKey
      let label := route.aliasName stem
      .lookedUp label (lookupStages hop.relation hop.target.storage localField label)

/-- The stages that look up all references of a table of routes. -/
def lookups (joins : Joins) : List Stage :=
  joins.routes.flatMap fun route => match reach joins.stem route with
    | some (.lookedUp _ stages) => stages
    | _ => []

/-- The fields that these stages add. -/
def lookupFields (joins : Joins) : List String :=
  joins.routes.filterMap fun route => match reach joins.stem route with
    | some (.lookedUp label _) => some label
    | _ => none

/-- No routes from the listed resource yet. -/
def Target.noJoins (t : Target) (stem : String) : Joins := { start := t.resource, stem }

/-- The field at the end of a path. -/
def Target.field (t : Target) (stem param : String) (path : Path) : Result String := do
  return fieldOf stem (← t.registry.locate t.resource param path)

/-- The stages that unwind every list of referenced documents. -/
def unwindStages (joins : Joins) : List Stage :=
  joins.routes.filterMap fun route => match route.getLast? with
    | some hop =>
      if hop.relation.many && !hop.relation.embedded then
        some (.unwind (route.aliasName joins.stem) true)
      else none
    | none => none

end Listing.Document

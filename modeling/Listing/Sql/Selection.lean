/-
# Selections

The rows that a filter selects. The routes of its paths become joins, each after the one it
extends. A filter through a relation to many rows is moved into a select of primary keys, so that
neither page nor count repeats a row.
-/
import Listing.Sql.Condition
import Listing.Sql.Statement

namespace Listing.Sql

/-- The join of a route to the one it extends. -/
def Target.join (t : Target) (stem : String) (route : Route) : Option Join :=
  route.getLast?.map fun hop => {
    table := hop.target.storage
    aliasName := route.aliasName stem
    foreignKey := hop.relation.foreignKey
    parent := t.tableOf stem route.dropLast
    localKey := hop.relation.localKey }

/-- How the end of a route is joined; an embedded relation has no rows of its own to join. -/
def Target.reach (t : Target) (stem param : String) (route : Route) : Result (Option Join) :=
  match route.getLast? with
  | none => .ok none
  | some hop =>
    if hop.relation.embedded then
      .error (t.unsupported param (.embeddedRelation hop.relation.name))
    else .ok (t.join stem route)

/-- The joins of a table of routes, each after the one it extends. -/
def Target.joinsOf (t : Target) (joins : Joins) : List Join :=
  joins.routes.filterMap (t.join joins.stem)

/-- The rows that a filter selects: joins to make first, and what then restricts the rows. -/
structure Selection where
  joins : List Join
  restriction : Restriction
  /-- The routes behind the joins. -/
  routes : Joins
  deriving Repr

/-- No routes from the listed resource yet. -/
def Target.noJoins (t : Target) (stem : String) : Joins := { start := t.resource, stem }

/-- The selection of a filter. -/
def Target.selection (t : Target) (filter : Option Filter) : Result Selection := do
  let stem := Joins.defaultStem
  let condition ← filter.mapM (t.condition stem)
  let paths := (filter.map Filter.paths).getD []
  let routes := (t.noJoins stem).addPaths t.registry paths
  if routes.hasToMany then
    return {
      joins := []
      restriction := .keyAmong {
        table := t.resource.storage
        key := t.resource.primaryKey
        joins := t.joinsOf routes
        condition }
      routes := t.noJoins stem }
  else
    return {
      joins := t.joinsOf routes
      restriction := match condition with
        | some e => .holds e
        | none => .nothing
      routes }

end Listing.Sql

/-
# The rows that a filter finds

A filter is read on a row of the listed table together with rows that its relations lead to. Every
beginning of the route of a path is followed once. Its last relation leads from the row where the
route before it ended to all rows whose foreign key equals the local key of that row, or else to a
row of nulls. The filter finds the row of the listed table if its condition is true for some of the
rows that were reached in this way.

How the rows are fetched is not said here: there are no joins, no selects of keys and no orders.
-/
import Listing.Proofs.Semantics.SqlSelect
import Listing.Sql.Condition

namespace Listing.Sql

/-- The paths of a filter that may be missing. -/
def pathsOf (filter : Option Filter) : List Path := (filter.map Filter.paths).getD []

/-- The rows that a relation leads to from a row. -/
def relatedRows (engine : Engine) (db : Database) (hop : Hop) (r : Listing.Record) :
    List Listing.Record :=
  (db hop.target.storage).filter fun other =>
    engine.equal (other hop.relation.foreignKey) (r hop.relation.localKey)

namespace Target

variable (t : Target) (engine : Engine) (db : Database)

/-- The route that a path walks from the listed resource. -/
def routeOf (path : Path) : Route := (t.registry.walk t.resource path.relations).1

/-- The routes that paths use: all beginnings of the routes that they walk, each once. -/
def routesUsed (paths : List Path) : List Route :=
  (paths.flatMap fun path => (t.routeOf path).beginnings).eraseDups

/-- Follow the last relation of a route from where the route before it ended. -/
def follow (route : Route) (scope : Scope) : List Scope :=
  match route.getLast? with
  | none => [scope]
  | some hop =>
    let rows :=
      relatedRows engine db hop (scope.row (t.tableOf Joins.defaultStem route.dropLast))
    (if rows.isEmpty then [Record.null] else rows).map fun r =>
      scope ++ [(route.aliasName Joins.defaultStem, r)]

/-- Follow routes one after the other. -/
def followAll : List Route → Scope → List Scope
  | [], scope => [scope]
  | route :: routes, scope => (t.follow engine db route scope).flatMap (followAll routes)

/-- Whether a filter finds a row of the listed table. -/
def finds (filter : Option Filter) (r : Listing.Record) : Bool :=
  match filter.mapM (t.condition Joins.defaultStem) with
  | .ok condition =>
    (t.followAll engine db (t.routesUsed (pathsOf filter)) [(t.resource.storage, r)]).any
      (engine.keepsScope condition)
  | .error _ => false

/-- The rows of the listed table that a filter finds. -/
def foundRows (filter : Option Filter) : List Listing.Record :=
  (db t.resource.storage).filter (t.finds engine db filter)

/-- The keys that a query relies on: the primary key of the listed table, and the foreign key of
every relation to one row that a path can walk. -/
structure HasKeys : Prop where
  primary : engine.IsKey t.resource.primaryKey (db t.resource.storage)
  toOne : ∀ names, ∀ hop ∈ (t.registry.walk t.resource names).1, hop.relation.many = false →
    hop.relation.embedded = false →
    engine.IsUnique [hop.relation.foreignKey] (db hop.target.storage)

/-- The listed table and the ends of the routes that paths use are called by different names. -/
def NamesApart (paths : List Path) : Prop :=
  (t.resource.storage :: (t.routesUsed paths).map (·.aliasName Joins.defaultStem)).Nodup

/-- Whether a filter goes through a relation to many rows. -/
def reachesMany (filter : Option Filter) : Bool :=
  (t.routesUsed (pathsOf filter)).any Route.isToMany

/-- The names that filter and order use for a page are different. They are used side by side,
unless the filter goes through a relation to many rows. -/
def PageNamesApart (filter : Option Filter) (order : List Path) : Prop :=
  if t.reachesMany filter then t.NamesApart (pathsOf filter) ∧ t.NamesApart order
  else t.NamesApart (pathsOf filter ++ order)

instance (paths : List Path) : Decidable (t.NamesApart paths) :=
  inferInstanceAs (Decidable (List.Nodup _))

instance (filter : Option Filter) (order : List Path) :
    Decidable (t.PageNamesApart filter order) :=
  inferInstanceAs (Decidable (if t.reachesMany filter then t.NamesApart (pathsOf filter) ∧
    t.NamesApart order else t.NamesApart (pathsOf filter ++ order)))

end Target
end Listing.Sql

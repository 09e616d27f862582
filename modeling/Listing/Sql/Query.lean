/-
# Relational queries

A list request compiles to up to three statements over the same rows: the page, the number of rows,
and the totals, and to the loads of related rows. A page is ordered by the primary key unless the
request says otherwise; an order through a relation to many rows is refused.
-/
import Listing.Sql.EagerLoad
import Listing.Sql.Totals

namespace Listing.Sql

/-- The order of a page by one attribute. -/
def Target.orderTerm (t : Target) (item : OrderItem) : Result OrderTerm := do
  let located ← t.registry.locate t.resource Param.order item.path
  if located.route.isToMany then
    .error (t.unsupported Param.order (.orderThroughMany item.path))
  else return ⟨← t.columnOf Joins.defaultStem Param.order located, item.direction⟩

/-- The order of a page that names none: the primary key. -/
def Target.keyOrder (t : Target) : List OrderTerm :=
  t.resource.primaryKey.map fun column => ⟨.column t.resource.storage column, .ascending⟩

/-- The page of rows. -/
def Target.page (t : Target) (selection : Selection) (request : Request)
    (order : List OrderTerm) : Select :=
  let routes := selection.routes.addPaths t.registry (request.order.map (·.path))
  { columns := [.allOf t.resource.storage]
    table := t.resource.storage
    joins := t.joinsOf routes
    restriction := selection.restriction
    orderBy := if order.isEmpty then t.keyOrder else order
    limit := request.paging.limit
    offset := if request.paging.offset = 0 then none else some request.paging.offset }

/-- The name of the column that holds the number of rows. -/
def countLabel : String := "total"

/-- The number of rows of a selection. -/
def Target.count (t : Target) (selection : Selection) : Select :=
  { columns := [.named .countRows countLabel]
    table := t.resource.storage
    joins := selection.joins
    restriction := selection.restriction }

/-- A compiled list request. -/
structure Query where
  dialect : Dialect
  page : Select
  /-- The number of rows, where it was asked for. -/
  count : Option Select
  totals : Option TotalsQuery
  eager : List EagerLoad
  deriving Repr

/-- Compile a request. -/
def Target.compile (t : Target) (request : Request) : Result Query := do
  let selection ← t.selection request.filter
  let order ← request.order.mapM t.orderTerm
  let totals ← t.totals selection request.aggregate
  let eager ← t.eagerLoads request
  return {
    dialect := t.dialect
    page := t.page selection request order
    count := if request.paging.wantTotal then some (t.count selection) else none
    totals
    eager }

end Listing.Sql

/-
# Columns

A relational query is compiled for a dialect, the functions that requests may call, and the listed
resource. A path of a request becomes a column of the table or alias of its route; an embedded
relation has no table, so a route through one is an error that names it.
-/
import Listing.Relation.Route
import Listing.Sql.Expr

namespace Listing.Sql

/-- What a relational query is compiled for. -/
structure Target where
  dialect : Dialect
  /-- The functions that requests may call, in small letters. -/
  functions : List String
  registry : Registry
  resource : Resource
  deriving Repr

namespace Target

/-- The error for what the dialect does not have. -/
def unsupported (t : Target) (param : String) (feature : Feature) : QueryError :=
  .unsupportedByBackend param BackendKind.relational.name (.onDialect feature t.dialect)

/-- Refuse a route with an embedded relation; the one nearest to its end is named. -/
def checkReferences (t : Target) (param : String) (route : Route) : Result Unit :=
  match route.reverse.find? (·.relation.embedded) with
  | some hop => .error (t.unsupported param (.embeddedRelation hop.relation.name))
  | none => .ok ()

/-- The table or alias that holds the rows at the end of a route. -/
def tableOf (t : Target) (stem : String) (route : Route) : String :=
  if route.isEmpty then t.resource.storage else route.aliasName stem

/-- The column of an attribute that was found. -/
def columnOf (t : Target) (stem param : String) (located : Located) : Result Expr := do
  t.checkReferences param located.route
  return .column (t.tableOf stem located.route) located.attr.columnName

/-- The column at the end of a path. -/
def column (t : Target) (stem param : String) (path : Path) : Result Expr := do
  t.columnOf stem param (← t.registry.locate t.resource param path)

/-- A call of a function that the request names. -/
def call (t : Target) (param name : String) (arguments : List Expr) : Result Expr :=
  let function := Text.lowerAscii name
  if t.functions.contains function then .ok (.call function arguments)
  else .error (t.unsupported param (.function name))

/-- The configuration of text search, made safe for a string literal. -/
def language (t : Target) : String :=
  String.ofList (t.registry.options.language.toList.flatMap fun c =>
    if c = '\'' then [c, c] else [c])

end Target

end Listing.Sql

/-
# Loading related rows

The relations that a request wants with its rows are loaded by further statements, one for the
whole page or one for each row. Such a statement selects the related rows by their foreign keys.
-/
import Listing.Request.Basic
import Listing.Sql.Column
import Listing.Sql.Statement

namespace Listing.Sql

/-- How related rows are loaded. -/
inductive EagerStrategy
  /-- With one statement for all rows of the page. -/
  | batched
  /-- With one statement for each row. -/
  | perRow
  deriving DecidableEq, Repr

/-- A relation to load with the rows of a page. -/
structure EagerLoad where
  /-- The key under which related rows are attached. -/
  relation : String
  table : String
  /-- The column of a row that holds the key. -/
  localKey : String
  /-- The column of the related table that is compared with it. -/
  foreignKey : String
  many : Bool
  strategy : EagerStrategy
  deriving DecidableEq, Repr

/-- The statement that finds the rows related to some keys. -/
def EagerLoad.statement (load : EagerLoad) (keys : List Scalar) : Statement :=
  .select {
    columns := [.everything]
    table := load.table
    restriction := .holds (.among (.ownColumn load.foreignKey) (keys.map .scalar))
    orderBy := [⟨.ownColumn load.foreignKey, .ascending⟩] }

/-- Pages that are unbounded, or no larger than the limit of the options, are loaded row by row. -/
def eagerStrategy (options : Options) (limit : Option Nat) : EagerStrategy :=
  match options.eagerLimit, limit with
  | some _, none => .perRow
  | some eager, some n => if n ≤ eager then .perRow else .batched
  | none, _ => .batched

/-- The load of one relation. -/
def Target.eagerLoad (t : Target) (strategy : EagerStrategy) (relation : Relation) :
    Result EagerLoad :=
  if relation.embedded then
    .error (.unsupportedByBackend Param.relations BackendKind.relational.name
      (.embeddedRelation relation.name))
  else match t.registry.resource? relation.target with
    | none => .error (.invalidRelationPath Param.relations relation.name)
    | some target =>
      .ok {
        relation := relation.name
        table := target.storage
        localKey := relation.localKey
        foreignKey := relation.foreignKey
        many := relation.many
        strategy }

/-- The relations to load with a page. -/
def Target.eagerLoads (t : Target) (request : Request) : Result (List EagerLoad) := do
  let strategy := eagerStrategy t.registry.options request.paging.limit
  (← t.resource.fetched request.fetch).mapM (t.eagerLoad strategy)

end Listing.Sql

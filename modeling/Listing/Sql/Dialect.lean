/-
# SQL dialects
-/

namespace Listing.Sql

/-- The dialect that a relational store speaks. -/
inductive Dialect
  | postgres | mysql | sqlite
  deriving DecidableEq, Repr, Inhabited

/-- The name of a dialect in messages. -/
def Dialect.name : Dialect → String
  | .postgres => "Postgres"
  | .mysql => "MySql"
  | .sqlite => "Sqlite"

end Listing.Sql

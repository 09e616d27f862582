/-
# SQL statements

The statements of a list request. A page, a count and plain totals are one select over the table of
the listed resource and the tables joined to it. Rows are restricted by a condition, or by the
primary keys that another select over the same table finds, which keeps its joins from repeating
rows. Totals of which only the first groups are kept are a select over a select that ranks them.
-/
import Listing.Request.Order
import Listing.Sql.Expr

namespace Listing.Sql

/-- `LEFT JOIN table AS alias` where the foreign key equals the local key of the parent. -/
structure Join where
  table : String
  aliasName : String
  foreignKey : String
  /-- The table or alias that the local key belongs to. -/
  parent : String
  localKey : String
  deriving DecidableEq, Repr

/-- A column of a result. -/
inductive Projection
  /-- All columns of one table. -/
  | allOf (table : String)
  /-- All columns. -/
  | everything
  | named (e : Expr) (label : String)
  deriving Repr

/-- One term of an order. -/
structure OrderTerm where
  expr : Expr
  direction : Direction
  deriving Repr

/-- The key columns of those rows of a table for which a condition holds after some joins. -/
structure KeyQuery where
  table : String
  key : List String
  joins : List Join
  condition : Option Expr
  deriving Repr

/-- What restricts the rows of a select. -/
inductive Restriction
  | nothing
  | holds (condition : Expr)
  /-- The key of the row is one of those found. -/
  | keyAmong (query : KeyQuery)
  deriving Repr

structure Select where
  columns : List Projection
  table : String
  joins : List Join := []
  restriction : Restriction := .nothing
  groupBy : List Expr := []
  orderBy : List OrderTerm := []
  limit : Option Nat := none
  offset : Option Nat := none
  deriving Repr

/-- The groups of a select whose rank is not above a bound. -/
structure Ranked where
  inner : Select
  /-- The alias of the inner select. -/
  aliasName : String
  /-- The columns of the inner select that are kept. -/
  labels : List String
  /-- The column that holds the rank. -/
  rank : String
  bound : Int
  orderBy : List OrderTerm
  deriving Repr

inductive Statement
  | select (s : Select)
  | ranked (r : Ranked)
  deriving Repr

end Listing.Sql

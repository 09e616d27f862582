/-
# SQL expressions

The expressions that conditions, totals and orders are made of. Operands occur only as bound
values; column names, function names and templates never come from an operand.
-/
import Listing.Sql.Value

namespace Listing.Sql

/-- The comparisons of a column with a value. -/
inductive Comparator
  | eq | lt | le | gt | ge
  deriving DecidableEq, Repr

inductive Expr
  /-- A column of a table or of an alias. -/
  | column (table name : String)
  /-- A column of the only table of a statement. -/
  | ownColumn (name : String)
  | value (v : Value)
  | call (function : String) (arguments : List Expr)
  /-- The number of rows. -/
  | countRows
  /-- The number of distinct values. -/
  | countDistinct (e : Expr)
  | compare (comparator : Comparator) (e : Expr) (v : Value)
  | between (e : Expr) (low high : Value)
  | among (e : Expr) (values : List Value)
  /-- A match with a pattern in which the backslash is the escape character. -/
  | like (e : Expr) (pattern : String)
  | isNull (e : Expr)
  | isNotNull (e : Expr)
  /-- SQL text with holes, and the expressions for them. -/
  | template (text : String) (arguments : List Expr)
  | and (left right : Expr)
  | or (left right : Expr)
  | not (e : Expr)
  | truth (value : Bool)
  deriving Repr, Inhabited

namespace Expr

/-- The conjunction of expressions, nested to the left; of none it is true. -/
def all : List Expr → Expr
  | [] => .truth true
  | e :: es => es.foldl .and e

/-- The disjunction of expressions, nested to the left; of none it is false. -/
def any : List Expr → Expr
  | [] => .truth false
  | e :: es => es.foldl .or e

/-- A bound value of a request. -/
def scalar (s : Scalar) : Expr := .value (.scalar s)

/-- An expression or its negation. -/
def negateIf (negated : Bool) (e : Expr) : Expr := if negated then .not e else e

end Expr
end Listing.Sql

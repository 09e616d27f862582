/-
# The query language of document stores

The filters of a pipeline, and the expressions that compute values from a document. A filter tests
fields by name; an expression names a field by a dollar sign in front of its path. Both have a
JSON form, which is what the store is sent.
-/
import Listing.Json.Basic

namespace Listing.Document

/-- A computed value. -/
inductive Expr
  /-- The value of a field. -/
  | field (path : String)
  /-- A value of the request, as it is. -/
  | value (v : Json)
  /-- An operator applied to its arguments; a single argument stands by itself. -/
  | apply (operator : String) (arguments : List Expr)
  /-- Whether a regular expression matches a text. -/
  | regexMatch (input : Expr) (pattern options : String)
  deriving Repr, Inhabited

/-- The comparisons of the query language. -/
inductive Comparator
  | eq | ne | gt | gte | lt | lte
  deriving DecidableEq, Repr

def Comparator.name : Comparator → String
  | .eq => "$eq"
  | .ne => "$ne"
  | .gt => "$gt"
  | .gte => "$gte"
  | .lt => "$lt"
  | .lte => "$lte"

/-- What is asked of the value of a field. -/
inductive FieldTest
  | compare (comparator : Comparator) (v : Json)
  | between (low high : Json)
  /-- The value, or an element of it, is one of these. -/
  | among (values : List Json)
  /-- The value holds every one of these. -/
  | holdsAll (values : List Json)
  | regex (pattern options : String)
  | exists_
  /-- The value is this one, given without an operator. -/
  | is (v : Json)
  deriving Repr

/-- A filter on documents. -/
inductive Filter
  | field (path : String) (test : FieldTest)
  | and (filters : List Filter)
  | or (filters : List Filter)
  /-- None of the filters holds. -/
  | nor (filters : List Filter)
  /-- A computed value is true. -/
  | expr (e : Expr)
  deriving Repr, Inhabited

/-- The text that names a field in an expression. -/
def fieldRef (path : String) : String := "$" ++ path

mutual
/-- The JSON form of an expression. -/
def Expr.toJson : Expr → Json
  | .field path => .string (fieldRef path)
  | .value v => v
  | .apply operator [argument] => .object [(operator, argument.toJson)]
  | .apply operator arguments => .object [(operator, .array (Expr.toJsonAll arguments))]
  | .regexMatch input pattern options =>
    .object [("$regexMatch", .object [("input", input.toJson), ("regex", .string pattern),
      ("options", .string options)])]

/-- The JSON forms of several expressions. -/
def Expr.toJsonAll : List Expr → List Json
  | [] => []
  | e :: es => e.toJson :: Expr.toJsonAll es
end

/-- The JSON form of a test. -/
def FieldTest.toJson : FieldTest → Json
  | .compare comparator v => .object [(comparator.name, v)]
  | .between low high => .object [("$gte", low), ("$lte", high)]
  | .among values => .object [("$in", .array values)]
  | .holdsAll values => .object [("$all", .array values)]
  | .regex pattern options =>
    .object [("$regex", .string pattern), ("$options", .string options)]
  | .exists_ => .object [("$exists", .bool true)]
  | .is v => v

mutual
/-- The JSON form of a filter. -/
def Filter.toJson : Filter → Json
  | .field path test => .object [(path, test.toJson)]
  | .and filters => .object [("$and", .array (Filter.toJsonAll filters))]
  | .or filters => .object [("$or", .array (Filter.toJsonAll filters))]
  | .nor filters => .object [("$nor", .array (Filter.toJsonAll filters))]
  | .expr e => .object [("$expr", e.toJson)]

/-- The JSON forms of several filters. -/
def Filter.toJsonAll : List Filter → List Json
  | [] => []
  | f :: fs => f.toJson :: Filter.toJsonAll fs
end

/-- All of some filters, as one. -/
def Filter.all : List Filter → Filter
  | [f] => f
  | filters => .and filters

/-- A filter or its negation. -/
def Filter.negateIf (negated : Bool) (f : Filter) : Filter := if negated then .nor [f] else f

end Listing.Document

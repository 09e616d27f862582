/-
# Operators

The named comparisons that may end a parameter key. Eleven of them are the negations of others;
a store compiles the positive form and negates it.
-/
import Listing.Resource.Kind

namespace Listing

/-- How many operands an operator takes. -/
inductive Arity
  /-- None: the value is ignored. -/
  | unary
  | binary
  /-- A list that is not empty. -/
  | list
  /-- Two bounds. -/
  | range
  /-- What a function applied to the attribute asks for. -/
  | function
  deriving DecidableEq, Repr

/-- A named comparison. -/
inductive Operator
  | exact | notExact | gt | lt | gte | lte | range | notRange | among | notAmong
  | contains | notContains | icontains | notIcontains | search | notSearch | iexact | notIexact
  | startsWith | notStartsWith | endsWith | notEndsWith | istartsWith | notIstartsWith
  | iendsWith | notIendsWith | hasAll | hasAny | hasKey | overlap | isNull | isNotNull
  | year | month | day | function | predicate
  deriving DecidableEq, Repr, Inhabited

namespace Operator

/-- Every operator, in the order of look-up. -/
def all : List Operator :=
  [.exact, .notExact, .gt, .lt, .gte, .lte, .range, .notRange, .among, .notAmong,
   .contains, .notContains, .icontains, .notIcontains, .search, .notSearch, .iexact, .notIexact,
   .startsWith, .notStartsWith, .endsWith, .notEndsWith, .istartsWith, .notIstartsWith,
   .iendsWith, .notIendsWith, .hasAll, .hasAny, .hasKey, .overlap, .isNull, .isNotNull,
   .year, .month, .day, .function, .predicate]

/-- The name of an operator in keys and messages. -/
def name : Operator → String
  | .exact => "exact"
  | .notExact => "notexact"
  | .gt => "gt"
  | .lt => "lt"
  | .gte => "gte"
  | .lte => "lte"
  | .range => "range"
  | .notRange => "notrange"
  | .among => "in"
  | .notAmong => "notin"
  | .contains => "contains"
  | .notContains => "notcontains"
  | .icontains => "icontains"
  | .notIcontains => "noticontains"
  | .search => "match"
  | .notSearch => "notmatch"
  | .iexact => "iexact"
  | .notIexact => "notiexact"
  | .startsWith => "startswith"
  | .notStartsWith => "notstartswith"
  | .endsWith => "endswith"
  | .notEndsWith => "notendswith"
  | .istartsWith => "istartswith"
  | .notIstartsWith => "notistartswith"
  | .iendsWith => "iendswith"
  | .notIendsWith => "notiendswith"
  | .hasAll => "hasall"
  | .hasAny => "hasany"
  | .hasKey => "haskey"
  | .overlap => "overlap"
  | .isNull => "isnull"
  | .isNotNull => "isnotnull"
  | .year => "year"
  | .month => "month"
  | .day => "day"
  | .function => "func"
  | .predicate => "sfunc"

/-- The operator with a name. -/
def ofName? (name : String) : Option Operator := all.find? (·.name == name)

def arity : Operator → Arity
  | .isNull | .isNotNull => .unary
  | .range | .notRange => .range
  | .among | .notAmong | .contains | .notContains | .hasAll | .hasAny | .overlap => .list
  | .function | .predicate => .function
  | _ => .binary

/-- The operator that a negated one negates; every other operator is its own positive form. -/
def positive : Operator → Operator
  | .notExact => .exact
  | .notRange => .range
  | .notAmong => .among
  | .notContains => .contains
  | .notIcontains => .icontains
  | .notSearch => .search
  | .notIexact => .iexact
  | .notStartsWith => .startsWith
  | .notEndsWith => .endsWith
  | .notIstartsWith => .istartsWith
  | .notIendsWith => .iendsWith
  | op => op

/-- Whether an operator is the negation of another. -/
def isNegated (op : Operator) : Bool := op.positive != op

/-- The kinds of attributes that an operator applies to. A negation applies where its positive form
does. -/
def kinds (op : Operator) : List Kind :=
  match op.positive with
  | .exact | .among | .isNull | .isNotNull | .function | .predicate => Kind.all
  | .gt | .lt | .gte | .lte | .range => [.scalar, .string, .numeric, .date, .dateTime, .uuid]
  | .contains => [.collection, .json]
  | .hasAll | .hasAny | .hasKey => [.json]
  | .overlap => [.collection]
  | .year | .month | .day => [.date, .dateTime]
  | _ => [.string]

/-- Whether an operator applies to attributes of a kind. -/
def accepts (op : Operator) (kind : Kind) : Bool := op.kinds.contains kind

theorem mem_all (op : Operator) : op ∈ all := by cases op <;> decide

theorem ofName?_name (op : Operator) : ofName? op.name = some op := by cases op <;> decide

theorem positive_positive (op : Operator) : op.positive.positive = op.positive := by
  cases op <;> rfl

end Operator
end Listing

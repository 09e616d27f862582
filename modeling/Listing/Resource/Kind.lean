/-
# Kinds of attributes

The value domain of an attribute. It decides which operators apply to the attribute and how an
operand compared with it is read.
-/

namespace Listing

/-- The value domain of an attribute. -/
inductive Kind
  /-- An untyped single value: operands pass through unchanged. -/
  | scalar
  | string
  | numeric
  | boolean
  | date
  | dateTime
  | uuid
  /-- A list of single values. -/
  | collection
  /-- A structured document. -/
  | json
  deriving DecidableEq, Repr, Inhabited

namespace Kind

/-- Every kind, in the order of declaration. -/
def all : List Kind :=
  [.scalar, .string, .numeric, .boolean, .date, .dateTime, .uuid, .collection, .json]

/-- The name of a kind in schemas and messages. -/
def name : Kind → String
  | .scalar => "scalar"
  | .string => "string"
  | .numeric => "numeric"
  | .boolean => "boolean"
  | .date => "date"
  | .dateTime => "date_time"
  | .uuid => "uuid"
  | .collection => "collection"
  | .json => "json"

/-- A second spelling accepted for one of the kinds. -/
def dateTimeAlias : String := "datetime"

/-- The kind with a name. -/
def ofName? (name : String) : Option Kind :=
  if name = dateTimeAlias then some .dateTime else all.find? (·.name == name)

/-- Kinds whose values have a total order: ranges, sorting and extremes apply. -/
def isOrdered : Kind → Bool
  | .scalar | .string | .numeric | .date | .dateTime | .uuid => true
  | .boolean | .collection | .json => false

/-- Kinds that hold a single value: grouping and sorting apply. -/
def isSingle : Kind → Bool
  | .collection | .json => false
  | _ => true

theorem mem_all (k : Kind) : k ∈ all := by cases k <;> decide

theorem ofName?_name (k : Kind) : ofName? k.name = some k := by cases k <;> decide

end Kind
end Listing

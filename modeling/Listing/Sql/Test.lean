/-
# Tests

What the positive operators say of an expression, in each dialect. A text with `%`, `_` or `*` in it
is matched literally, case is ignored by comparing upper case, and an operator that a dialect does
not have is an error that names both.
-/
import Listing.Operand
import Listing.Sql.Column
import Listing.Text.Pattern

namespace Listing.Sql

/-- The pattern of LIKE for a needle. -/
def likePattern (op : Operator) (needle : String) : String :=
  let escaped := Text.escapeLike needle
  match op with
  | .startsWith | .istartsWith => escaped ++ "%"
  | .endsWith | .iendsWith => "%" ++ escaped
  | _ => "%" ++ escaped ++ "%"

/-- The pattern of GLOB for a needle. -/
def globPattern (op : Operator) (needle : String) : String :=
  match op with
  | .startsWith => Text.escapeGlob needle ++ "*"
  | _ => "*" ++ Text.escapeGlob needle

/-- Equality of an expression with a value of the request. -/
def equals (e : Expr) (s : Scalar) : Expr := .compare .eq e (.scalar s)

/-- The upper case of an expression. -/
def upperOf (e : Expr) : Expr := .call "UPPER" [e]

/-- A hole of a template. -/
def hole : String := "\x7b\x7d"

/-- Holes with a text between them, as many as there are things to put into them. -/
def holes {α : Type} (separator : String) (items : List α) : String :=
  separator.intercalate (items.map fun _ => hole)

/-- A template of an operator between an expression and an array of values. -/
def arrayTest (operator : String) (e : Expr) (items : List Scalar) : Expr :=
  .template (hole ++ " " ++ operator ++ " " ++ hole) [e, .value (.ofItems items)]

/-- The part of a date: its name, and its name in the format language of SQLite. -/
def datePartNames : Operator → String × String
  | .year => ("YEAR", "%Y")
  | .month => ("MONTH", "%m")
  | _ => ("DAY", "%d")

/-- The part of a date as an integer. -/
def datePart (d : Dialect) (op : Operator) (e : Expr) : Expr :=
  let (name, format) := datePartNames op
  match d with
  | .postgres => .template ("CAST(EXTRACT(" ++ name ++ " FROM " ++ hole ++ ") AS INTEGER)") [e]
  | .mysql => .call name [e]
  | .sqlite => .template ("CAST(strftime('" ++ format ++ "', " ++ hole ++ ") AS INTEGER)") [e]

/-- A match with the start or the end of a text, in which case counts. -/
def affixTest (d : Dialect) (op : Operator) (e : Expr) (needle : String) : Expr :=
  match d with
  | .postgres => .like e (likePattern op needle)
  | .sqlite => .template (hole ++ " GLOB " ++ hole) [e, .scalar (.text (globPattern op needle))]
  | .mysql =>
    .template (hole ++ " LIKE BINARY " ++ hole) [e, .scalar (.text (likePattern op needle))]

/-- A text search in one column. -/
def Target.searchTest (t : Target) (param : String) (e : Expr) (s : Scalar) : Result Expr :=
  match t.dialect with
  | .postgres =>
    .ok (.template ("to_tsvector('" ++ t.language ++ "', CAST(" ++ hole ++
      " AS TEXT)) @@ plainto_tsquery('" ++ t.language ++ "', " ++ hole ++ ")") [e, .scalar s])
  | .mysql =>
    .ok (.template ("MATCH (" ++ hole ++ ") AGAINST (" ++ hole ++ " IN NATURAL LANGUAGE MODE)")
      [e, .scalar s])
  | .sqlite => .error (t.unsupported param (.operator .search))

/-- Containment of every item in a document. -/
def documentTest (e : Expr) (items : List Scalar) : Expr :=
  .template (" AND ".intercalate (items.map fun _ => hole ++ " @> " ++ hole))
    (items.flatMap fun item => [e, .scalar item])

/-- The tests that only Postgres has. -/
def postgresTest? (op : Operator) (kind : Kind) (e : Expr) (operand : Operand) : Option Expr :=
  let texts := operand.values.map fun item => Scalar.text item.asText
  match op with
  | .contains =>
    if kind = .collection then some (arrayTest "@>" e operand.values)
    else some (documentTest e operand.values)
  | .overlap => some (arrayTest "&&" e operand.values)
  | .hasAll => some (arrayTest "?&" e texts)
  | .hasAny => some (arrayTest "?|" e texts)
  | .hasKey => some (.template (hole ++ " ? " ++ hole) [e, .scalar operand.single])
  | _ => none

/-- The test that a positive operator makes of an expression. -/
def Target.test (t : Target) (param : String) (op : Operator) (kind : Kind) (e : Expr)
    (operand : Operand) : Result Expr :=
  let single := operand.single
  match op with
  | .exact => .ok (equals e single)
  | .gt => .ok (.compare .gt e (.scalar single))
  | .gte => .ok (.compare .ge e (.scalar single))
  | .lt => .ok (.compare .lt e (.scalar single))
  | .lte => .ok (.compare .le e (.scalar single))
  | .range => match operand with
    | .bounds low high => .ok (.between e (.scalar low) (.scalar high))
    | _ => .error (.malformedParameter param .notBounds)
  | .among => .ok (.among e (operand.values.map .scalar))
  | .isNull => .ok (.isNull e)
  | .isNotNull => .ok (.isNotNull e)
  | .iexact => .ok (equals (upperOf e) (.text (Text.upper single.asText)))
  | .icontains | .istartsWith | .iendsWith =>
    .ok (.like (upperOf e) (likePattern op (Text.upper single.asText)))
  | .startsWith | .endsWith => .ok (affixTest t.dialect op e single.asText)
  | .search => t.searchTest param e single
  | .year | .month | .day => .ok (equals (datePart t.dialect op e) single)
  | op => match t.dialect, postgresTest? op kind e operand with
    | .postgres, some test => .ok test
    | _, _ => .error (t.unsupported param (.operator op))

end Listing.Sql

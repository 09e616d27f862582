/-
# Database values

The values that a statement binds, and their literals for a statement that is only shown. Operands
of a request become values here and nowhere else.
-/
import Listing.Operand
import Listing.Sql.Dialect

namespace Listing.Sql

/-- The element type of an array value. -/
inductive Element
  | bool | bigInt | double | date | dateTime | uuid | text
  deriving DecidableEq, Repr

/-- A bound value. -/
inductive Value
  | scalar (value : Scalar)
  | array (element : Element) (items : List Scalar)
  /-- A 32-bit integer. -/
  | word (value : Int)
  /-- An unsigned 64-bit integer. -/
  | natural (value : Nat)
  deriving Repr

/-- The element type of an array of values like this one. -/
def Element.ofScalar : Scalar → Element
  | .bool _ => .bool
  | .int _ => .bigInt
  | .double _ => .double
  | .date _ => .date
  | .dateTime _ => .dateTime
  | .uuid _ => .uuid
  | .null | .text _ | .json _ => .text

/-- The array of some values: of their common type where they have one, and otherwise of their
texts. -/
def Value.ofItems (items : List Scalar) : Value :=
  match items with
  | [] => .array .text []
  | first :: rest =>
    let element := Element.ofScalar first
    if element ≠ .text ∧ rest.all (Element.ofScalar · == element) then .array element items
    else .array .text (items.map fun item => .text item.asText)

namespace Dialect

/-- The escape of a character in a string literal of the dialects that have one. -/
def escapeChar (c : Char) : List Char :=
  match c.toNat with
  | 0 => ['\\', '0']
  | 8 => ['\\', 'b']
  | 9 => ['\\', 't']
  | 10 => ['\\', 'n']
  | 13 => ['\\', 'r']
  | 26 => ['\\', 'z']
  | _ => if c = '\\' ∨ c = '"' ∨ c = '\'' then ['\\', c] else [c]

/-- The string literal of a text. -/
def stringLiteral (d : Dialect) (s : String) : String :=
  match d with
  | .sqlite =>
    String.ofList ('\'' :: s.toList.flatMap (fun c => if c = '\'' then [c, c] else [c]) ++ ['\''])
  | .mysql => String.ofList ('\'' :: s.toList.flatMap escapeChar ++ ['\''])
  | .postgres =>
    let escaped := s.toList.flatMap escapeChar
    String.ofList ((if escaped.contains '\\' then ['E', '\''] else ['\'']) ++ escaped ++ ['\''])

/-- The literal of a date-time: a space between date and time, and always six digits of the
second. -/
def dateTimeLiteral (t : DateTime) : String :=
  "'" ++ Calendar.write (Calendar.dateItems ++ [.blanks] ++ Calendar.secondItems) t ++ "." ++
    String.ofList (Number.padded 6 (t.nanosecond / 1000)) ++ "'"

/-- The literal of a single value. -/
def scalarLiteral (d : Dialect) : Scalar → String
  | .null => "NULL"
  | .bool true => "TRUE"
  | .bool false => "FALSE"
  | .int n => Number.integerText n
  | .double x => x.plainText
  | .text s => d.stringLiteral s
  | .date day => "'" ++ day.text ++ "'"
  | .dateTime t => dateTimeLiteral t
  | .uuid u => "'" ++ u.text ++ "'"
  | .json value => d.stringLiteral value.render

/-- The literal of a value. -/
def literal (d : Dialect) : Value → String
  | .scalar s => d.scalarLiteral s
  | .array _ [] => "'\x7b\x7d'"
  | .array _ items => "ARRAY [" ++ ",".intercalate (items.map d.scalarLiteral) ++ "]"
  | .word n => Number.integerText n
  | .natural n => Number.integerText n

end Dialect
end Listing.Sql

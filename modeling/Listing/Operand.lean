/-
# Operands

The typed form of what an attribute is compared with. An operand is read against the kind of the
attribute, so that every store is given the same values; after a function the kind of the attribute
says nothing, and the operand passes through as it is.
-/
import Listing.Calendar.Format
import Listing.Filter.Basic
import Listing.Text.Upper
import Listing.Uuid

namespace Listing

/-- A single typed value. -/
inductive Scalar
  | null
  | bool (value : Bool)
  | int (value : Int)
  | double (value : Double)
  | text (value : String)
  | date (value : Date)
  | dateTime (value : DateTime)
  | uuid (value : Uuid)
  | json (value : Json)
  deriving Repr, Inhabited

namespace Scalar

/-- The value of a JSON value to which no kind applies. An integer beyond the signed range is a
double. -/
def ofJson : Json → Scalar
  | .null => .null
  | .bool b => .bool b
  | .int n => if Number.fitsSigned n then .int n else .double (Double.ofInt n)
  | .double x => .double x
  | .string s => .text s
  | value => .json value

/-- The JSON form of a value. -/
def toJson : Scalar → Json
  | .null => .null
  | .bool b => .bool b
  | .int n => .int n
  | .double x => .double x
  | .text s => .string s
  | .date d => .string d.text
  | .dateTime t => .string t.text
  | .uuid u => .string u.text
  | .json value => value

/-- The text that a value stands for where a text is wanted. -/
def asText (s : Scalar) : String := s.toJson.text

/-- The text of a value that is one. -/
def text? : Scalar → Option String
  | .text s => some s
  | _ => none

/-- The order of two values of one type; integers and doubles compare as doubles. -/
def compare? : Scalar → Scalar → Option Ordering
  | .int a, .int b => some (Ord.compare a b)
  | .double a, .double b => some (a.compare b)
  | .int a, .double b => some ((Double.ofInt a).compare b)
  | .double a, .int b => some (a.compare (Double.ofInt b))
  | .text a, .text b => some (Ord.compare a b)
  | .date a, .date b => some (a.compare b)
  | .dateTime a, .dateTime b => some (a.compare b)
  | .uuid a, .uuid b => some (a.compare b)
  | _, _ => none

end Scalar

/-- The typed right-hand side of a comparison. -/
inductive Operand
  | none
  | one (value : Scalar)
  | many (values : List Scalar)
  /-- Two bounds, the lower one first where they can be compared. -/
  | bounds (low high : Scalar)
  deriving Repr, Inhabited

namespace Operand

/-- The values of an operand. -/
def values : Operand → List Scalar
  | .none => []
  | .one s => [s]
  | .many ss => ss
  | .bounds low high => [low, high]

/-- The first value of an operand, or null. -/
def single (o : Operand) : Scalar := o.values.head?.getD .null

/-- Two bounds in ascending order. -/
def between (a b : Scalar) : Operand :=
  if a.compare? b = some .gt then .bounds b a else .bounds a b

end Operand

namespace Scalar

/-- The number that a text writes: an integer if it is one, else a finite double. -/
def ofNumberText? (s : String) : Option Scalar :=
  let s := Text.trim s
  ((Number.readSigned? s).map .int).orElse fun _ => (Double.read? s).map .double

/-- The truth value that a text names. -/
def ofBoolText? (s : String) : Option Scalar :=
  let word := Text.lowerAscii (Text.trim s)
  if ["1", "true", "yes", "on"].contains word then some (.bool true)
  else if ["0", "false", "no", "off"].contains word then some (.bool false)
  else none

/-- The day that a text names: a date, or the day of a date-time. -/
def ofDateText? (s : String) : Option Scalar :=
  ((Calendar.readDate? (Text.trim s)).orElse fun _ =>
    (Calendar.readDateTime? s).map (·.date)).map .date

/-- Read a JSON value that is not null as a value of a kind. -/
def ofKind? : Kind → Json → Option Scalar
  | .scalar, value => some (ofJson value)
  | .collection, value | .json, value => some (.json value)
  | .string, .string s => some (.text s)
  | .string, .int n => some (.text (Json.int n).render)
  | .string, .double x => some (.text (Json.double x).render)
  | .string, .bool b => some (.text (Json.bool b).render)
  | .numeric, .int n => some (ofJson (.int n))
  | .numeric, .double x => some (.double x)
  | .numeric, .string s => ofNumberText? s
  | .boolean, .bool b => some (.bool b)
  | .boolean, .int n =>
    if n = 1 then some (.bool true) else if n = 0 then some (.bool false) else none
  | .boolean, .string s => ofBoolText? s
  | .date, .string s => ofDateText? s
  | .dateTime, .string s => (Calendar.readDateTime? s).map .dateTime
  | .uuid, .string s => (Uuid.read? (Text.trim s)).map .uuid
  | _, _ => none

/-- Read a JSON value as a value of a kind. Null is a value of no kind. -/
def read (kind : Kind) (value : Json) : Except ParameterFault Scalar :=
  match value with
  | .null => .error .nullOperand
  | value => match ofKind? kind value with
    | some s => .ok s
    | none => .error (.notOfKind value kind)

/-- Read an integer: a number, or the text of one. -/
def readInteger (value : Json) : Except ParameterFault Scalar :=
  let number := match value with
    | .string s => Number.readSigned? (Text.trim s)
    | value => value.asSigned?
  match number with
  | some n => .ok (.int n)
  | none => .error .notInteger

end Scalar

namespace Operand

/-- The items of a list operand. -/
def readList (op : Operator) : Json → Except ParameterFault (List Json)
  | .array [] => .error (.emptyList op)
  | .array items => .ok items
  | _ => .error (.notList op)

/-- The kind of the items of a list operand. -/
def itemKind (op : Operator) (kind elementKind : Kind) : Kind :=
  match op.positive with
  | .hasAll | .hasAny => .string
  | .contains => if kind = .collection then elementKind else .json
  | .overlap => if kind = .collection then elementKind else kind
  | _ => kind

/-- Whether a value holds other values. -/
def isContainer : Json → Bool
  | .array _ | .object _ => true
  | _ => false

/-- Read the operand of an operator for one value. -/
def readSingle (op : Operator) (kind : Kind) (value : Json) : Except ParameterFault Scalar :=
  match op.positive with
  | .year | .month | .day => Scalar.readInteger value
  | .exact | .gt | .gte | .lt | .lte =>
    if isContainer value && kind.isSingle then .error (.notSingle op) else Scalar.read kind value
  | _ => Scalar.read .string value

/-- Read the operand of an operator on an attribute of a kind. -/
def readFor (op : Operator) (kind elementKind : Kind) (value : Json) :
    Except ParameterFault Operand :=
  match op.arity with
  | .unary | .function => .ok .none
  | .range => do
    match ← readList op value with
    | [low, high] => return between (← Scalar.read kind low) (← Scalar.read kind high)
    | _ => .error (.notTwo op)
  | .list => do
    return .many (← (← readList op value).mapM (Scalar.read (itemKind op kind elementKind)))
  | .binary => do return .one (← readSingle op kind value)

/-- The arguments that a value gives to a predicate function. -/
def arguments : Json → Operand
  | .null => .none
  | .array items => .many (items.map Scalar.ofJson)
  | value => .one (Scalar.ofJson value)

/-- The typed operand of a comparison with an attribute. -/
def ofComparison (c : Comparison) (attr : Attribute) : Result Operand :=
  let read : Except ParameterFault Operand := match c.function with
    | .none => readFor c.operator attr.kind attr.elementKind c.value
    | some function =>
      if c.operator = .predicate then .ok .none
      else match function.compare with
        | some op => readFor op .scalar .scalar c.value
        | .none => .ok (arguments c.value)
  match read with
  | .ok operand => .ok operand
  | .error fault => .error (.malformedParameter c.param fault)

end Operand
end Listing

/-
# Execution

A compiled request is answered by sending its statements one after the other: the page, the number
of rows, the totals, and then those that load related rows. How a statement is sent is left open,
so that the same steps run against any database. Keys of related rows are compared by a normal
form, in which a number and its text are the same.
-/
import Listing.Response
import Listing.Sql.Printer
import Listing.Sql.Query

namespace Listing.Sql

/-- A value in a row of a database; none is NULL. -/
inductive Cell
  | bool (value : Option Bool)
  | int32 (value : Option Int)
  | int64 (value : Option Int)
  | double (value : Option Double)
  | text (value : Option String)
  | json (value : Option Json)
  deriving Repr

/-- A row of a database. -/
abbrev Record := List (String × Cell)

/-- The JSON form of a cell. -/
def Cell.toJson : Cell → Json
  | .bool v => Json.orNull .bool v
  | .int32 v | .int64 v => Json.orNull .int v
  | .double v => Json.orNull .double v
  | .text v => Json.orNull .string v
  | .json v => v.getD .null

namespace Record

/-- Insert a column into columns sorted by name. -/
def insertSorted (name : String) (value : Json) : Row → Row
  | [] => [(name, value)]
  | (n, v) :: row =>
    if name < n then (name, value) :: (n, v) :: row
    else if name = n then (name, value) :: row
    else (n, v) :: insertSorted name value row

/-- The row of a record, with its columns sorted by name. -/
def toRow (r : Record) : Row :=
  r.foldl (fun row (name, cell) => insertSorted name cell.toJson row) []

/-- A column that holds a 64-bit integer. -/
def int? (r : Record) (column : String) : Option Int :=
  match r.lookup column with
  | some (.int64 v) => v
  | _ => none

/-- The value of a group: a text, or null. -/
def groupValue (r : Record) (column : String) : Json :=
  match r.lookup column with
  | some (.text v) => Json.orNull .string v
  | _ => .null

/-- The value of a metric: an integer, a double, or null. -/
def metricValue (r : Record) (column : String) : Json :=
  match r.lookup column with
  | some (.int64 v) => Json.orNull .int v
  | some (.double v) => Json.orNull .double v
  | _ => .null

end Record

/-- The normal form of the keys of related rows: null is the key of nothing, and an integer, a
double without a fraction and their texts are the same key. -/
def relationKey? (value : Json) : Option String :=
  match Scalar.ofJson value with
  | .null => none
  | .int n => some (Number.integerText n)
  | .double x => match x.toInt? with
    | some n =>
      if n.natAbs < 9 * Number.tenTo 15 then some (Number.integerText n) else some (Json.double x).render
    | none => some (Json.double x).render
  | .text s => some (match Number.readSigned? s with
    | some n => Number.integerText n
    | none => s)
  | other => some other.toJson.render

/-- The key of a row in a column. -/
def rowKey? (column : String) (row : Row) : Option String :=
  (row.lookup column).bind relationKey?

/-- Insert a key into keys sorted by their normal form; of equal ones the first stays. -/
def insertKey (key : String) (value : Json) : Row → Row
  | [] => [(key, value)]
  | (k, v) :: keys =>
    if key < k then (key, value) :: (k, v) :: keys
    else if key = k then (k, v) :: keys
    else (k, v) :: insertKey key value keys

/-- The distinct keys of rows in a column, sorted by their normal form, each as the first row with
it has it. -/
def distinctKeys (column : String) (rows : List Row) : List Json :=
  let keyed : Row := rows.filterMap fun row => do
    let value ← row.lookup column
    return (← relationKey? value, value)
  (keyed.foldl (fun keys (key, value) => insertKey key value keys) []).map (·.2)

namespace EagerLoad

/-- What a row holds under the name of a relation: all related rows, or the first one. -/
def attached (load : EagerLoad) (related : List Row) : Json :=
  if load.many then .array (related.map .object)
  else match related with
    | [] => .null
    | row :: _ => .object row

/-- Put related rows into a row. -/
def attach (load : EagerLoad) (related : List Row) (row : Row) : Row :=
  insertEntry load.relation (load.attached related) row

/-- Those of the loaded rows that are related to a row. -/
def relatedTo (load : EagerLoad) (loaded : List Row) (row : Row) : List Row :=
  match rowKey? load.localKey row with
  | none => []
  | some key => loaded.filter fun other => rowKey? load.foreignKey other == some key

/-- The statement that loads the rows related to one row; a null key has none. -/
def statementFor? (load : EagerLoad) (row : Row) : Option Statement :=
  match row.lookup load.localKey with
  | none | some .null => none
  | some key => some (load.statement [Scalar.ofJson key])

/-- The statement that loads the rows related to all rows of a page; without keys there is none. -/
def batchStatement? (load : EagerLoad) (rows : List Row) : Option Statement :=
  match distinctKeys load.localKey rows with
  | [] => none
  | keys => some (load.statement (keys.map Scalar.ofJson))

end EagerLoad

/-- What sends a statement and reads the records it gives. -/
abbrev Connection (m : Type → Type) := Statement → ExceptT DatabaseError m (List Record)

section
variable {m : Type → Type} [Monad m]

/-- The rows of a statement. -/
def Connection.rows (send : Connection m) (s : Statement) : ExceptT DatabaseError m (List Row) := do
  return (← send s).map Record.toRow

/-- The rows of a statement, or none where there is no statement. -/
def Connection.rowsOf (send : Connection m) : Option Statement →
    ExceptT DatabaseError m (List Row)
  | none => return []
  | some s => send.rows s

/-- Load one relation for the rows of a page. -/
def EagerLoad.run (load : EagerLoad) (send : Connection m) (rows : List Row) :
    ExceptT DatabaseError m (List Row) :=
  match load.strategy with
  | .batched => do
    let loaded ← send.rowsOf (load.batchStatement? rows)
    return rows.map fun row => load.attach (load.relatedTo loaded row) row
  | .perRow => rows.mapM fun row => do
    return load.attach (← send.rowsOf (load.statementFor? row)) row

/-- The number of rows that a count statement gives. -/
def Connection.count (send : Connection m) (s : Select) : ExceptT DatabaseError m Nat := do
  match ← send (.select s) with
  | [] => return 0
  | record :: _ => match record.int? countLabel with
    | some n => return n.toNat
    | none => throw (.unreadable countLabel)

/-- The rows of the totals. -/
def Connection.totals (send : Connection m) (t : TotalsQuery) :
    ExceptT DatabaseError m (List Row) := do
  return (← send t.statement).map fun record =>
    t.metrics.foldl (fun row label => insertEntry label (record.metricValue label) row)
      (t.dimensions.foldl (fun row label => insertEntry label (record.groupValue label) row) [])

/-- The label of the metric that counts rows. -/
def countMetric : String := Metric.label ⟨.count, none⟩

/-- The number of rows of the filter that ungrouped totals give. -/
def totalOf (t : TotalsQuery) (rows : List Row) : Option Nat :=
  if t.dimensions.isEmpty then
    (rows.head?.bind (·.lookup countMetric)).bind Json.asUnsigned?
  else none

/-- Answer a compiled request. -/
def Query.execute (q : Query) (send : Connection m) : ExceptT DatabaseError m ListResponse := do
  let page ← send.rows (.select q.page)
  let counted ← q.count.mapM send.count
  let totals ← q.totals.mapM fun t => do return (t, ← send.totals t)
  let rows ← q.eager.foldlM (fun rows load => load.run send rows) page
  return {
    results := rows.map .object
    total := counted.or (totals.bind fun (t, rows) => totalOf t rows)
    totals := match totals with
      | some (t, rows) => Totals.shape t.dimensions t.metrics rows
      | none => [] }

end
end Listing.Sql

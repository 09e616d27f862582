/-
# Writing SQL

The text of a statement in a dialect. Writing yields pieces, each of them SQL text or a bound
value; from the pieces come both forms of a statement, the one with marks for the values, which is
executed, and the one with literals, which is shown. An operand of a logical word stands in
brackets unless it is a single term, a simple comparison, or, on the left, of the same word; a
template stands in brackets as an operand of anything.
-/
import Listing.Sql.Statement
import Listing.Sql.Template

namespace Listing.Sql

/-- A piece of a statement. -/
inductive Piece
  | text (s : String)
  | value (v : Value)
  deriving Repr

/-- SQL with bound values in it. -/
abbrev Fragment := List Piece

namespace Fragment

/-- Join fragments with a text between them. -/
def join (separator : String) : List Fragment → Fragment
  | [] => []
  | [f] => f
  | f :: fs => f ++ .text separator :: join separator fs

/-- A fragment in brackets. -/
def bracketed (f : Fragment) : Fragment := .text "(" :: f ++ [.text ")"]

/-- The text with marks for the values, of which `count` came before. -/
def markedFrom (d : Dialect) (count : Nat) : Fragment → String
  | [] => ""
  | .text s :: f => s ++ markedFrom d count f
  | .value _ :: f =>
    String.ofList (Template.markAt d (count + 1)) ++ markedFrom d (count + 1) f

/-- The text with marks for the values. -/
def marked (d : Dialect) (f : Fragment) : String := markedFrom d 0 f

/-- The values, in the order of their marks. -/
def values (f : Fragment) : List Value :=
  f.filterMap fun
    | .value v => some v
    | .text _ => none

/-- The text with literals for the values. -/
def inlined (d : Dialect) (f : Fragment) : String :=
  String.join (f.map fun
    | .text s => s
    | .value v => d.literal v)

end Fragment

/-- The quote around identifiers. -/
def Dialect.identifierQuote : Dialect → Char
  | .mysql => '`'
  | .postgres | .sqlite => '"'

/-- An identifier in quotes; a quote inside of it is doubled. -/
def Dialect.identifier (d : Dialect) (name : String) : String :=
  let q := d.identifierQuote
  String.ofList (q :: name.toList.flatMap (fun c => if c = q then [c, c] else [c]) ++ [q])

/-- A column of a table in quotes. -/
def Dialect.column (d : Dialect) (table name : String) : String :=
  d.identifier table ++ "." ++ d.identifier name

def Comparator.text : Comparator → String
  | .eq => " = "
  | .lt => " < "
  | .le => " <= "
  | .gt => " > "
  | .ge => " >= "

namespace Expr

/-- A term that never needs brackets. -/
def isTerm : Expr → Bool
  | .column .. | .ownColumn _ | .value _ | .call .. | .countRows | .countDistinct _ | .truth _ =>
    true
  | _ => false

/-- A comparison that binds more closely than the logical words. -/
def isSimpleTest : Expr → Bool
  | .compare .. | .among .. | .like .. | .isNull _ | .isNotNull _ => true
  | _ => false

/-- An operand of a comparison. -/
def asOperand (e : Expr) (f : Fragment) : Fragment := if e.isTerm then f else f.bracketed

/-- An operand of a logical word. -/
def asClause (e : Expr) (f : Fragment) : Fragment :=
  if e.isTerm || e.isSimpleTest then f else f.bracketed

/-- The left operand of AND: a conjunction needs no brackets there. -/
def asLeftOfAnd (e : Expr) (f : Fragment) : Fragment :=
  match e with
  | .and .. => f
  | e => e.asClause f

/-- The left operand of OR. -/
def asLeftOfOr (e : Expr) (f : Fragment) : Fragment :=
  match e with
  | .or .. => f
  | e => e.asClause f

/-- A template with its holes filled. -/
def fillTemplate (d : Dialect) (text : String) (arguments : List Fragment) : Fragment :=
  (Template.parts d text).flatMap fun
    | .text c => [.text (String.singleton c)]
    | .hole position => arguments[position]?.getD []

mutual
/-- The pieces of an expression. -/
def write (d : Dialect) : Expr → Fragment
  | .column table name => [.text (d.column table name)]
  | .ownColumn name => [.text (d.identifier name)]
  | .value v => [.value v]
  | .call function arguments =>
    .text (function ++ "(") :: Fragment.join ", " (writeAll d arguments) ++ [.text ")"]
  | .countRows => [.text "COUNT(*)"]
  | .countDistinct e => .text "COUNT(DISTINCT " :: write d e ++ [.text ")"]
  | .compare comparator e v => asOperand e (write d e) ++ [.text comparator.text, .value v]
  | .between e low high =>
    asOperand e (write d e) ++ [.text " BETWEEN ", .value low, .text " AND ", .value high]
  | .among _ [] => [.value (.word 1), .text " = ", .value (.word 2)]
  | .among e values =>
    asOperand e (write d e) ++ .text " IN (" ::
      Fragment.join ", " (values.map fun v => [.value v]) ++ [.text ")"]
  | .like e pattern =>
    asOperand e (write d e) ++
      [.text " LIKE ", .value (.scalar (.text pattern)), .text " ESCAPE ",
        .text (d.stringLiteral "\\")]
  | .isNull e => asOperand e (write d e) ++ [.text " IS NULL"]
  | .isNotNull e => asOperand e (write d e) ++ [.text " IS NOT NULL"]
  | .template text arguments => fillTemplate d text (writeAll d arguments)
  | .and left right =>
    asLeftOfAnd left (write d left) ++ .text " AND " :: asClause right (write d right)
  | .or left right =>
    asLeftOfOr left (write d left) ++ .text " OR " :: asClause right (write d right)
  | .not e => .text "NOT " :: asClause e (write d e)
  | .truth true => [.text "TRUE"]
  | .truth false => [.text "FALSE"]

/-- The pieces of several expressions. -/
def writeAll (d : Dialect) : List Expr → List Fragment
  | [] => []
  | e :: es => write d e :: writeAll d es
end

end Expr

/-- The condition of a join. -/
def Join.writeOn (d : Dialect) (j : Join) : String :=
  d.column j.aliasName j.foreignKey ++ " = " ++ d.column j.parent j.localKey

def Join.write (d : Dialect) (j : Join) : Fragment :=
  [.text (" LEFT JOIN " ++ d.identifier j.table ++ " AS " ++ d.identifier j.aliasName ++ " ON " ++
    j.writeOn d)]

def Projection.write (d : Dialect) : Projection → Fragment
  | .allOf table => [.text (d.identifier table ++ ".*")]
  | .everything => [.text "*"]
  | .named e label => e.write d ++ [.text (" AS " ++ d.identifier label)]

def OrderTerm.write (d : Dialect) (t : OrderTerm) : Fragment :=
  t.expr.write d ++ [.text (match t.direction with
    | .ascending => " ASC"
    | .descending => " DESC")]

/-- The clause of an order; none where there is nothing to order by. -/
def writeOrderBy (d : Dialect) (terms : List OrderTerm) : Fragment :=
  if terms.isEmpty then []
  else .text " ORDER BY " :: Fragment.join ", " (terms.map (·.write d))

/-- The key columns of a table, as one column or as a row of several. -/
def writeKey (d : Dialect) (table : String) : List String → Fragment
  | [column] => [.text (d.column table column)]
  | columns =>
    [.text ("(" ++ ", ".intercalate (columns.map (d.column table)) ++ ")")]

/-- The clause of a condition that may be absent. -/
def writeWhere (d : Dialect) : Option Expr → Fragment
  | none => []
  | some condition => .text " WHERE " :: condition.write d

def KeyQuery.write (d : Dialect) (q : KeyQuery) : Fragment :=
  .text ("SELECT " ++ ", ".intercalate (q.key.map (d.column q.table)) ++ " FROM " ++
    d.identifier q.table) :: q.joins.flatMap (·.write d) ++ writeWhere d q.condition

def Restriction.write (d : Dialect) : Restriction → Fragment
  | .nothing => []
  | .holds condition => writeWhere d (some condition)
  | .keyAmong query =>
    .text " WHERE " :: writeKey d query.table query.key ++ .text " IN " ::
      Fragment.bracketed (query.write d)

/-- A clause that binds a number. -/
def writeNumber (clause : String) : Option Nat → Fragment
  | none => []
  | some n => [.text clause, .value (.natural n)]

def Select.write (d : Dialect) (s : Select) : Fragment :=
  .text "SELECT " :: Fragment.join ", " (s.columns.map (·.write d)) ++
    [.text (" FROM " ++ d.identifier s.table)] ++
    s.joins.flatMap (·.write d) ++
    s.restriction.write d ++
    (if s.groupBy.isEmpty then []
      else .text " GROUP BY " :: Fragment.join ", " (s.groupBy.map (·.write d))) ++
    writeOrderBy d s.orderBy ++
    writeNumber " LIMIT " s.limit ++
    writeNumber " OFFSET " s.offset

def Ranked.write (d : Dialect) (r : Ranked) : Fragment :=
  .text ("SELECT " ++ ", ".intercalate (r.labels.map (d.column r.aliasName)) ++ " FROM ") ::
    Fragment.bracketed (r.inner.write d) ++
    .text (" AS " ++ d.identifier r.aliasName ++ " WHERE ") ::
    (Expr.compare .le (.column r.aliasName r.rank) (.scalar (.int r.bound))).write d ++
    writeOrderBy d r.orderBy

/-- The pieces of a statement. -/
def Statement.write (d : Dialect) : Statement → Fragment
  | .select s => s.write d
  | .ranked r => r.write d

/-- A statement as it is sent: text with marks, and the values for them. -/
structure Prepared where
  text : String
  values : List Value
  deriving Repr

/-- The statement that is sent. -/
def Statement.prepare (d : Dialect) (s : Statement) : Prepared :=
  let f := s.write d
  ⟨f.marked d, f.values⟩

/-- The statement with its values in place. -/
def Statement.inlined (d : Dialect) (s : Statement) : String := (s.write d).inlined d

end Listing.Sql

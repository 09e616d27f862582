/-
# The meaning of selects

A database gives the rows of every table. A select joins further tables to each row of its own, one
after the other; a row without a match is joined to a row of nulls. The restriction keeps some of
what was joined, an aggregate is computed over groups of it, and offset and limit cut the output.

A select may return its output in any arrangement. An order only chooses among these, so what holds
of all of them holds for every order.

Names are quoted, so they are compared as they stand. A select is refused, and returns nothing, if
two of its tables have the same name, or if it refers to a table that it does not have.
-/
import Listing.Proofs.Semantics.Direct
import Listing.Proofs.Semantics.SqlExpr
import Listing.Sql.Statement

namespace Listing

/-- The record whose values are all null. -/
def Record.null : Record := fun _ => .null

namespace Sql

/-- The rows of every table. -/
abbrev Database := String → List Listing.Record

/-- The rows that were joined, each under its table or alias. -/
abbrev Scope := List (String × Listing.Record)

namespace Scope

/-- The tables and aliases in scope. -/
def names (scope : Scope) : List String := scope.map (·.1)

/-- The row under a name. -/
def row (scope : Scope) (name : String) : Listing.Record := (scope.lookup name).getD Record.null

/-- The columns in scope. -/
def env (scope : Scope) : Env where
  column table name := scope.row table name
  own name := (scope.head?.map fun first => first.2 name).getD .null

end Scope

section Meaning

variable (engine : Engine) (db : Database)

/-- Whether two values are found equal; null equals nothing. -/
def Engine.equal (x y : Datum) : Bool := truth? (engine.compareWith .eq x y) == some true

/-- Whether two rows are found equal in all of some columns. -/
def Engine.sameKey (columns : List String) (r r' : Listing.Record) : Bool :=
  columns.all fun column => engine.equal (r column) (r' column)

/-- The rows that match what was joined so far. -/
def Join.matching (j : Join) (scope : Scope) : List Listing.Record :=
  (db j.table).filter fun r => engine.equal (r j.foreignKey) (scope.row j.parent j.localKey)

/-- What a join makes of what was joined so far. -/
def Join.expand (j : Join) (scope : Scope) : List Scope :=
  match j.matching engine db scope with
  | [] => [scope ++ [(j.aliasName, Record.null)]]
  | rows => rows.map fun r => scope ++ [(j.aliasName, r)]

/-- What joins make of what was joined so far, one after the other. -/
def expandAll : List Join → Scope → List Scope
  | [], scope => [scope]
  | j :: joins, scope => (j.expand engine db scope).flatMap (expandAll joins)

/-- What joins make of the rows of a table. -/
def joined (table : String) (joins : List Join) : List Scope :=
  (db table).flatMap fun r => expandAll engine db joins [(table, r)]

/-- Whether a condition is true of what was joined; a missing one always is. -/
def Engine.keepsScope (condition : Option Expr) (scope : Scope) : Bool :=
  condition.all fun e => engine.keeps scope.env e

/-- Whether what was joined is kept. -/
def Restriction.keeps (scope : Scope) : Restriction → Bool
  | .nothing => true
  | .holds condition => engine.keeps scope.env condition
  | .keyAmong query =>
    ((joined engine db query.table query.joins).filter (engine.keepsScope query.condition)).any
      fun found => engine.sameKey query.key (scope.row query.table) (found.row query.table)

/-- What a select keeps of what it joins. -/
def Select.found (s : Select) : List Scope :=
  (joined engine db s.table s.joins).filter fun scope => s.restriction.keeps engine db scope

/-- Whether an expression is computed over a group. -/
def Expr.isAggregate : Expr → Bool
  | .countRows | .countDistinct _ => true
  | .call function _ => aggregates.contains function
  | _ => false

/-- Whether a column is computed over a group. -/
def Projection.isAggregate : Projection → Bool
  | .named e _ => e.isAggregate
  | _ => false

/-- The groups over which the output is computed: those with the same values, or all rows for a
select of aggregates, or else every row by itself. -/
def Select.groups (s : Select) (found : List Scope) : List (List Scope) :=
  if s.groupBy.isEmpty then
    if s.columns.any Projection.isAggregate then [found] else found.map fun scope => [scope]
  else
    let value (scope : Scope) := s.groupBy.map (engine.eval [scope.env] scope.env)
    (found.map value).eraseDups.map fun v => found.filter fun scope => value scope == v

/-- A part of the output: a row of a table, or a value under a label. -/
inductive Output
  | record (r : Listing.Record)
  | value (label : String) (x : Datum)

/-- The output of a column for a group. -/
def Projection.output (group : List Scope) : Projection → List Output
  | .allOf table => [.record ((group.headD []).row table)]
  | .everything => (group.headD []).map fun table => .record table.2
  | .named e label =>
    [.value label (engine.eval (group.map Scope.env) (group.headD []).env e)]

/-- The output of a select for a group. -/
def Select.output (s : Select) (group : List Scope) : List Output :=
  s.columns.flatMap (·.output engine group)

/-- The part of the output that offset and limit leave. -/
def Select.cut {α : Type} (s : Select) (rows : List α) : List α :=
  let rest := rows.drop (s.offset.getD 0)
  (s.limit.map rest.take).getD rest

end Meaning

/-- Equality of values that are not null is an equivalence. -/
structure Engine.IsLawful (engine : Engine) : Prop where
  refl : ∀ x, x ≠ .null → engine.equal x x = true
  symm : ∀ x y, engine.equal x y = true → engine.equal y x = true
  trans : ∀ x y z, engine.equal x y = true → engine.equal y z = true → engine.equal x z = true

/-- No two rows agree in all of some columns. -/
def Engine.IsUnique (engine : Engine) (columns : List String) (rows : List Listing.Record) :
    Prop :=
  rows.Pairwise fun r r' => engine.sameKey columns r r' = false

/-- Rows are told apart by columns that are never null. -/
structure Engine.IsKey (engine : Engine) (columns : List String) (rows : List Listing.Record) :
    Prop where
  unique : engine.IsUnique columns rows
  present : ∀ r ∈ rows, ∀ column ∈ columns, r column ≠ .null

mutual
/-- The tables and aliases whose columns an expression names. -/
def Expr.tables : Expr → List String
  | .column table _ => [table]
  | .call _ arguments => Expr.tablesOf arguments
  | .countDistinct e => e.tables
  | .compare _ e _ => e.tables
  | .between e _ _ => e.tables
  | .among e _ => e.tables
  | .like e _ => e.tables
  | .isNull e => e.tables
  | .isNotNull e => e.tables
  | .template _ arguments => Expr.tablesOf arguments
  | .and left right => left.tables ++ right.tables
  | .or left right => left.tables ++ right.tables
  | .not e => e.tables
  | _ => []

/-- The tables and aliases whose columns several expressions name. -/
def Expr.tablesOf : List Expr → List String
  | [] => []
  | e :: es => e.tables ++ Expr.tablesOf es
end

/-- An expression names only columns of some tables. -/
def Expr.IsOver (names : List String) (e : Expr) : Prop := e.tables ⊆ names

/-- Every join refers to a table that comes before it. -/
def Join.Resolve : List String → List Join → Prop
  | _, [] => True
  | names, j :: joins => j.parent ∈ names ∧ Join.Resolve (names ++ [j.aliasName]) joins

/-- The tables of a select of keys. -/
def KeyQuery.names (q : KeyQuery) : List String := q.table :: q.joins.map (·.aliasName)

/-- The tables of a select. -/
def Select.names (s : Select) : List String := s.table :: s.joins.map (·.aliasName)

/-- A restriction refers to tables that there are. -/
def Restriction.Resolves (names : List String) : Restriction → Prop
  | .nothing => True
  | .holds condition => condition.IsOver names
  | .keyAmong query =>
    query.table ∈ names ∧ Join.Resolve [query.table] query.joins ∧
      ∀ e ∈ query.condition, e.IsOver query.names

/-- A column refers to a table that there is. -/
def Projection.Resolves (names : List String) : Projection → Prop
  | .allOf table => table ∈ names
  | .everything => True
  | .named e _ => e.IsOver names

/-- A select refers to tables that it has. -/
structure Select.Resolves (s : Select) : Prop where
  joins : Join.Resolve [s.table] s.joins
  restriction : s.restriction.Resolves s.names
  columns : ∀ column ∈ s.columns, column.Resolves s.names
  groupBy : ∀ e ∈ s.groupBy, e.IsOver s.names
  orderBy : ∀ term ∈ s.orderBy, term.expr.IsOver s.names

/-- The tables of a select of keys have different names. -/
def Restriction.Distinct : Restriction → Prop
  | .keyAmong query => query.names.Nodup
  | _ => True

/-- The tables of a select have different names. -/
def Select.Distinct (s : Select) : Prop := s.names.Nodup ∧ s.restriction.Distinct

instance : (r : Restriction) → Decidable r.Distinct
  | .keyAmong query => inferInstanceAs (Decidable query.names.Nodup)
  | .nothing | .holds _ => .isTrue trivial

instance (s : Select) : Decidable s.Distinct :=
  inferInstanceAs (Decidable (s.names.Nodup ∧ s.restriction.Distinct))

/-- A select is accepted and may return these rows. -/
structure Select.Returns (engine : Engine) (db : Database) (s : Select)
    (rows : List (List Output)) : Prop where
  distinct : s.Distinct
  resolves : s.Resolves
  arranged : ∃ groups : List (List Scope),
    groups.Perm (s.groups engine (s.found engine db)) ∧ rows = s.cut (groups.map (s.output engine))

/-- A select without limit and offset. -/
def Select.unlimited (s : Select) : Select := { s with limit := none, offset := none }

end Sql
end Listing

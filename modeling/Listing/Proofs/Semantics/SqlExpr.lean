/-
# The meaning of SQL expressions

An expression has a value on a row, which gives the columns of every table and alias in scope; an
aggregate has a value on all rows of its group. Logic has three values: a comparison with null is
neither true nor false, and a condition keeps a row only if it is true.

What a particular database makes of a function, a template, a pattern, or a comparison of values
without an order is left to an `Engine`. Statements about every engine assume nothing of these.
-/
import Listing.Proofs.Semantics.Datum
import Listing.Sql.Expr

namespace Listing.Sql

/-- What a database computes beyond the logic of SQL. -/
structure Engine where
  call : String → List Datum → Datum
  /-- The value of an aggregate for the arguments in each row of a group. -/
  aggregate : String → List (List Datum) → Datum
  template : String → List Datum → Datum
  like : Datum → String → Datum
  /-- The comparison of values that have no order of their own. -/
  compare : Comparator → Datum → Datum → Datum

/-- The columns that an expression can name on a row. -/
structure Env where
  column : String → String → Datum
  /-- The columns of the only table of a statement. -/
  own : String → Datum

/-- The orders that a comparison accepts. -/
def Comparator.accepts : Comparator → Ordering → Bool
  | .eq => Ordering.isEq
  | .lt => Ordering.isLT
  | .le => Ordering.isLE
  | .gt => Ordering.isGT
  | .ge => Ordering.isGE

/-- The truth value of a datum; null has none, and a number is true unless it is zero. -/
def truth? : Datum → Option Bool
  | .bool b => some b
  | .number q => some (q != 0)
  | _ => none

def conj (x y : Datum) : Datum :=
  match truth? x, truth? y with
  | some false, _ | _, some false => .bool false
  | some true, some true => .bool true
  | _, _ => .null

def disj (x y : Datum) : Datum :=
  match truth? x, truth? y with
  | some true, _ | _, some true => .bool true
  | some false, some false => .bool false
  | _, _ => .null

def neg (x : Datum) : Datum :=
  match truth? x with
  | some b => .bool (!b)
  | none => .null

/-- The functions that are computed over a group. -/
def aggregates : List String := ["COUNT", "SUM", "AVG", "MIN", "MAX"]

namespace Engine

variable (engine : Engine)

/-- The value of a comparison: null where one of the values is. -/
def compareWith (comparator : Comparator) (x y : Datum) : Datum :=
  if x = .null ∨ y = .null then .null
  else match x.order? y with
    | some o => .bool (comparator.accepts o)
    | none => engine.compare comparator x y

/-- The value of a membership. -/
def memberOf (x : Datum) (ys : List Datum) : Datum :=
  ys.foldl (fun found y => disj found (engine.compareWith .eq x y)) (.bool false)

mutual
/-- The value of an expression on a row of a group. -/
def eval (rows : List Env) (env : Env) : Expr → Datum
  | .column table name => env.column table name
  | .ownColumn name => env.own name
  | .value v => v.datum
  | .call function arguments =>
    if aggregates.contains function then
      engine.aggregate function (rows.map fun row => evalAll rows row arguments)
    else engine.call function (evalAll rows env arguments)
  | .countRows => .number rows.length
  | .countDistinct e =>
    .number ((rows.map fun row => eval rows row e).filter (· != Datum.null)).eraseDups.length
  | .compare comparator e v => engine.compareWith comparator (eval rows env e) v.datum
  | .between e low high =>
    conj (engine.compareWith .ge (eval rows env e) low.datum)
      (engine.compareWith .le (eval rows env e) high.datum)
  | .among e values => engine.memberOf (eval rows env e) (values.map Value.datum)
  | .like e pattern =>
    let x := eval rows env e
    if x = Datum.null then .null else engine.like x pattern
  | .isNull e => .bool (eval rows env e == Datum.null)
  | .isNotNull e => .bool (eval rows env e != Datum.null)
  | .template text arguments => engine.template text (evalAll rows env arguments)
  | .and left right => conj (eval rows env left) (eval rows env right)
  | .or left right => disj (eval rows env left) (eval rows env right)
  | .not e => neg (eval rows env e)
  | .truth b => .bool b

/-- The values of several expressions. -/
def evalAll (rows : List Env) (env : Env) : List Expr → List Datum
  | [] => []
  | e :: es => eval rows env e :: evalAll rows env es
end

/-- A condition keeps a row if it is true on it. -/
def keeps (env : Env) (condition : Expr) : Bool :=
  truth? (engine.eval [env] env condition) == some true

end Engine

@[simp]
theorem conj_bool (a b : Bool) : conj (.bool a) (.bool b) = .bool (a && b) := by
  cases a <;> cases b <;> rfl

@[simp]
theorem disj_bool (a b : Bool) : disj (.bool a) (.bool b) = .bool (a || b) := by
  cases a <;> cases b <;> rfl

@[simp]
theorem neg_bool (b : Bool) : neg (.bool b) = .bool (!b) := rfl

theorem foldl_and (b : Bool) (parts : List Bool) :
    parts.foldl (· && ·) b = (b && parts.all id) := by
  induction parts generalizing b with
  | nil => simp
  | cons part parts ih => rw [List.foldl_cons, ih, List.all_cons, Bool.and_assoc, id]

theorem foldl_or (b : Bool) (parts : List Bool) :
    parts.foldl (· || ·) b = (b || parts.any id) := by
  induction parts generalizing b with
  | nil => simp
  | cons part parts ih => rw [List.foldl_cons, ih, List.any_cons, Bool.or_assoc, id]

namespace Engine

variable (engine : Engine) {kind : Kind} {x y : Datum}

/-- Values of one kind are compared by their order. -/
theorem compareWith_of_holds (comparator : Comparator) (hx : kind.Holds x) (hy : kind.Holds y) :
    engine.compareWith comparator x y = .bool (x.related comparator.accepts y) := by
  obtain ⟨o, ho⟩ := hx.exists_order? hy
  rw [compareWith, if_neg (by simp [hx.ne_null, hy.ne_null]), Datum.related, ho]
  rfl

/-- Membership among values of one kind is equality with one of them. -/
theorem memberOf_of_holds (hx : kind.Holds x) {ys : List Datum} (hys : ∀ y ∈ ys, kind.Holds y) :
    engine.memberOf x ys = .bool (ys.any fun y => x.related Ordering.isEq y) := by
  have hfold : ∀ found : Bool,
      ys.foldl (fun found y => disj found (engine.compareWith .eq x y)) (.bool found) =
        .bool (found || ys.any fun y => x.related Ordering.isEq y) := by
    induction ys with
    | nil => simp
    | cons y ys ih =>
        intro found
        have hy := hys y List.mem_cons_self
        rw [List.foldl_cons, engine.compareWith_of_holds .eq hx hy, disj_bool,
          ih fun z hz => hys z (List.mem_cons_of_mem y hz), List.any_cons, Bool.or_assoc]
        rfl
  simpa [memberOf] using hfold false

/-- A chain of expressions that have truth values has one, if its links combine truth values. -/
theorem eval_foldl (rows : List Env) (env : Env) {link : Expr → Expr → Expr}
    {combine : Bool → Bool → Bool}
    (hlink : ∀ e e' b b', engine.eval rows env e = .bool b → engine.eval rows env e' = .bool b' →
      engine.eval rows env (link e e') = .bool (combine b b'))
    {es : List Expr} {parts : List Bool}
    (hes : es.map (engine.eval rows env) = parts.map Datum.bool) {e : Expr} {b : Bool}
    (he : engine.eval rows env e = .bool b) :
    engine.eval rows env (es.foldl link e) = .bool (parts.foldl combine b) := by
  induction es generalizing parts e b with
  | nil =>
      rw [List.map_nil, eq_comm, List.map_eq_nil_iff] at hes
      rw [hes]
      exact he
  | cons e' es ih =>
      cases parts with
      | nil => simp at hes
      | cons part parts =>
          rw [List.map_cons, List.map_cons, List.cons.injEq] at hes
          exact ih hes.2 (hlink e e' b part he hes.1)

/-- The conjunction of expressions that have truth values has one. -/
theorem eval_all (rows : List Env) (env : Env) {es : List Expr} {parts : List Bool}
    (hes : es.map (engine.eval rows env) = parts.map Datum.bool) :
    engine.eval rows env (.all es) = .bool (parts.all id) := by
  have hlink : ∀ e e' b b', engine.eval rows env e = .bool b →
      engine.eval rows env e' = .bool b' →
      engine.eval rows env (.and e e') = .bool (b && b') := by
    intro e e' b b' he he'
    rw [eval, he, he', conj_bool]
  cases es with
  | nil =>
      rw [List.map_nil, eq_comm, List.map_eq_nil_iff] at hes
      simp [hes, Expr.all, eval]
  | cons e es =>
      cases parts with
      | nil => simp at hes
      | cons part parts =>
          rw [List.map_cons, List.map_cons, List.cons.injEq] at hes
          rw [Expr.all, engine.eval_foldl rows env hlink hes.2 hes.1, foldl_and, List.all_cons]
          rfl

/-- The disjunction of expressions that have truth values has one. -/
theorem eval_any (rows : List Env) (env : Env) {es : List Expr} {parts : List Bool}
    (hes : es.map (engine.eval rows env) = parts.map Datum.bool) :
    engine.eval rows env (.any es) = .bool (parts.any id) := by
  have hlink : ∀ e e' b b', engine.eval rows env e = .bool b →
      engine.eval rows env e' = .bool b' →
      engine.eval rows env (.or e e') = .bool (b || b') := by
    intro e e' b b' he he'
    rw [eval, he, he', disj_bool]
  cases es with
  | nil =>
      rw [List.map_nil, eq_comm, List.map_eq_nil_iff] at hes
      simp [hes, Expr.any, eval]
  | cons e es =>
      cases parts with
      | nil => simp at hes
      | cons part parts =>
          rw [List.map_cons, List.map_cons, List.cons.injEq] at hes
          rw [Expr.any, engine.eval_foldl rows env hlink hes.2 hes.1, foldl_or, List.any_cons]
          rfl

/-- A negation may be left out or put in front of what has a truth value. -/
theorem eval_negateIf (rows : List Env) (env : Env) (negated : Bool) {e : Expr} {b : Bool}
    (he : engine.eval rows env e = .bool b) :
    engine.eval rows env (.negateIf negated e) = .bool (negated != b) := by
  cases negated with
  | false => simpa [Expr.negateIf] using he
  | true => simp [Expr.negateIf, eval, he]

end Engine
end Listing.Sql

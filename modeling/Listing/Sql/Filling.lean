/-
# Filling templates

The expressions of the statements of a query, and the templates among them. A template is filled if
there is an expression for every hole that is read in it. A statement with a template that is not
cannot be written: that is no error of the request, and nothing handles it.
-/
import Listing.Sql.Query
import Listing.Sql.Template

namespace Listing.Sql

/-- A template in its place: the text, and how many expressions there are for its holes. -/
structure TemplateUse where
  text : String
  count : Nat
  deriving DecidableEq, Repr

/-- Whether there is an expression for every hole that is read. -/
def TemplateUse.isFilled (d : Dialect) (use : TemplateUse) : Bool :=
  (Template.parts d use.text).all fun
    | .text _ => true
    | .hole position => position < use.count

namespace Expr

mutual
/-- The templates in an expression. -/
def templates : Expr → List TemplateUse
  | .column .. | .ownColumn _ | .value _ | .countRows | .truth _ => []
  | .call _ arguments => templatesOf arguments
  | .countDistinct e | .compare _ e _ | .between e _ _ | .among e _ | .like e _ | .isNull e
  | .isNotNull e | .not e => templates e
  | .template text arguments => ⟨text, arguments.length⟩ :: templatesOf arguments
  | .and left right | .or left right => templates left ++ templates right

/-- The templates in several expressions. -/
def templatesOf : List Expr → List TemplateUse
  | [] => []
  | e :: es => templates e ++ templatesOf es
end

end Expr

/-- The expression of a column of a result. -/
def Projection.exprs : Projection → List Expr
  | .allOf _ | .everything => []
  | .named e _ => [e]

/-- The condition that restricts rows. -/
def Restriction.exprs : Restriction → List Expr
  | .nothing => []
  | .holds condition => [condition]
  | .keyAmong query => query.condition.toList

def Select.exprs (s : Select) : List Expr :=
  s.columns.flatMap Projection.exprs ++ s.restriction.exprs ++ s.groupBy ++
    s.orderBy.map OrderTerm.expr

def Statement.exprs : Statement → List Expr
  | .select s => s.exprs
  | .ranked r => r.inner.exprs ++ r.orderBy.map OrderTerm.expr

namespace Query

/-- The statements of a query. -/
def statements (q : Query) : List Statement :=
  .select q.page :: (q.count.map .select).toList ++ (q.totals.map TotalsQuery.statement).toList

/-- The templates in the statements of a query. -/
def templates (q : Query) : List TemplateUse :=
  (q.statements.flatMap Statement.exprs).flatMap Expr.templates

/-- Whether the statements of a query can be written. -/
def isFilled (q : Query) : Bool := q.templates.all (·.isFilled q.dialect)

end Query

end Listing.Sql

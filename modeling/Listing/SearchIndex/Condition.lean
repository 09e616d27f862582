/-
# Conditions on indexed documents

The filter of a request as clauses. All relations are embedded: one to one is an object under its
name, one to many a list of objects. Children of a logical node that lie in the same lists are put
into one nested clause, so that they speak of the same object.
-/
import Listing.Operand
import Listing.Relation.Route
import Listing.SearchIndex.Clause
import Listing.Text.Pattern

namespace Listing.SearchIndex

/-- What a search is compiled for. -/
structure Target where
  registry : Registry
  resource : Resource
  deriving Repr

/-- The error for what search indexes do not have. -/
def unsupported (param : String) (feature : Feature) : QueryError :=
  .unsupportedByBackend param BackendKind.searchIndex.name feature

/-- Refuse a route with a reference; the one nearest to its end is named. -/
def checkEmbedded (param : String) (route : Route) : Result Unit :=
  match route.reverse.find? (! ·.relation.embedded) with
  | some hop => .error (unsupported param (.referenceRelation hop.relation.name))
  | none => .ok ()

/-- The path of the object or of the list that a route reaches. -/
def objectPath (route : Route) : String := ".".intercalate route.names

/-- The lists that a route passes through or reaches, outermost first. -/
def listPaths (route : Route) : List String :=
  route.beginnings.filterMap fun before =>
    if before.getLast?.any (·.relation.many) then some (objectPath before) else none

/-- How what a route reaches is stored in a document. -/
inductive Reached
  /-- One object at a path. -/
  | object (path : String)
  /-- A list of objects at a path. -/
  | list (path : String)
  deriving DecidableEq, Repr

/-- How the end of a route is stored; a reference is not stored at all. -/
def reach (param : String) (route : Route) : Result Reached := do
  checkEmbedded param route
  let path := objectPath route
  return if route.getLast?.any (·.relation.many) then .list path else .object path

/-- Where an attribute is found. -/
structure Field where
  path : String
  /-- The path of the value in one piece, for tests that do not search for words. -/
  term : String
  /-- The lists of objects that the field lies in, outermost first. -/
  lists : List String
  attr : Attribute
  deriving Repr

/-- The field at the end of a path. -/
def Target.field (t : Target) (param : String) (path : Path) : Result Field := do
  let located ← t.registry.locate t.resource param path
  checkEmbedded param located.route
  let column := located.attr.columnName
  let path := if located.route.isEmpty then column else objectPath located.route ++ "." ++ column
  return {
    path
    term := match located.attr.keywordField with
      | some keyword => path ++ "." ++ keyword
      | none => path
    lists := listPaths located.route
    attr := located.attr }

/-- The clauses that say that a field holds an item: one for each entry of an object. -/
def containment (field : Field) : Json → List Clause
  | .object entries => entries.map fun (key, v) => .term (field.path ++ "." ++ key) v
  | v => [.term field.term v]

/-- A document has a key. -/
def hasKey (field : Field) (key : Json) : Clause := .present (field.path ++ "." ++ key.text)

/-- The wildcard pattern for a needle. -/
def wildcardPattern (op : Operator) (needle : String) : String :=
  let escaped := Text.escapeWildcard needle
  match op with
  | .icontains => "*" ++ escaped ++ "*"
  | _ => "*" ++ escaped

/-- The clause that a positive operator puts on a field. -/
def fieldClause (param : String) (op : Operator) (field : Field) (operand : Operand) :
    Result Clause :=
  let term := field.term
  let single := operand.single.toJson
  let many := operand.values.map Scalar.toJson
  match op with
  | .exact => .ok (.term term single)
  | .gt => .ok (.range term [(.gt, single)])
  | .gte => .ok (.range term [(.gte, single)])
  | .lt => .ok (.range term [(.lt, single)])
  | .lte => .ok (.range term [(.lte, single)])
  | .range => match operand with
    | .bounds low high => .ok (.range term [(.gte, low.toJson), (.lte, high.toJson)])
    | _ => .error (.malformedParameter param .notBounds)
  | .among | .overlap => .ok (.terms term many)
  | .isNull => .ok (.none [.present field.path])
  | .isNotNull => .ok (.present field.path)
  | .iexact => .ok (.foldedTerm term single)
  | .startsWith => .ok (.startsWith term single false)
  | .istartsWith => .ok (.startsWith term single true)
  | .endsWith => .ok (.wildcard term (wildcardPattern op single.text) false)
  | .iendsWith | .icontains => .ok (.wildcard term (wildcardPattern op single.text) true)
  | .search => .ok (.text field.path single)
  | .contains =>
    if field.attr.kind = .collection then .ok (.allOf (many.map (.term term)))
    else .ok (.allOf (many.flatMap (containment field)))
  | .hasKey => .ok (hasKey field single)
  | .hasAll => .ok (.allOf (many.map (hasKey field)))
  | .hasAny => .ok (.anyOf (many.map (hasKey field)))
  | .year => .ok (.datePart .year field.path single)
  | .month => .ok (.datePart .month field.path single)
  | .day => .ok (.datePart .day field.path single)
  | op => .error (unsupported param (.operator op))

/-- A clause, and the lists of objects that it still has to be put into. -/
structure Scoped where
  clause : Clause
  lists : List String := []
  deriving Repr

/-- A clause inside of its lists. -/
def Scoped.close (s : Scoped) : Clause := .inLists s.lists s.clause

/-- The clause of a comparison. Functions cannot be applied to indexed values. -/
def Target.comparison (t : Target) (c : Comparison) : Result Scoped :=
  match c.function with
  | some _ => .error (unsupported c.param (.operator c.operator))
  | none => do
    let field ← t.field c.param c.path
    let operand ← Operand.ofComparison c field.attr
    let clause ← fieldClause c.param c.operator.positive field operand
    return { clause := .negateIf c.operator.isNegated clause, lists := field.lists }

/-- The clause of a full-text search. -/
def Target.fullText (t : Target) (f : FullText) : Clause :=
  .phrase f.phrase ((f.attributes.filterMap t.resource.attribute?).map (·.columnName))
    f.requireAll

/-- Clauses that lie in the same lists. -/
abbrev Groups := List (List String × List Clause)

/-- Add a clause to those in the same lists. -/
def addToGroup (lists : List String) (clause : Clause) : Groups → Groups
  | [] => [(lists, [clause])]
  | (key, clauses) :: groups =>
    if key = lists then (key, clauses ++ [clause]) :: groups
    else (key, clauses) :: addToGroup lists clause groups

/-- The clauses in lists, grouped by them in the order of their first occurrence. -/
def groupsOf (parts : List Scoped) : Groups :=
  (parts.filter (! ·.lists.isEmpty)).foldl
    (fun groups part => addToGroup part.lists part.clause groups) []

/-- The clauses that lie in no list. -/
def plainOf (parts : List Scoped) : List Clause :=
  (parts.filter (·.lists.isEmpty)).map (·.clause)

/-- The clauses of one group, of which one object has to satisfy any or all. -/
def closeGroup (connective : Connective) (lists : List String) (clauses : List Clause) : Clause :=
  .inLists lists (match connective with
    | .or => .anyOf clauses
    | .and | .not => .allOf clauses)

/-- The clause of a logical node: its groups, then the clauses that lie in no list. -/
def connect (connective : Connective) (parts : List Scoped) : Clause :=
  let clauses := (groupsOf parts).map (fun (lists, clauses) =>
    closeGroup connective lists clauses) ++ plainOf parts
  match connective with
  | .and => .allOf clauses
  | .or => .anyOf clauses
  | .not => .none clauses

mutual
/-- The clause of a filter of a request. -/
def Target.condition (t : Target) : Filter → Result Scoped
  | .comparison c => t.comparison c
  | .fullText f => .ok { clause := t.fullText f }
  | .node connective children => do
    return { clause := connect connective (← t.conditions children) }

/-- The clauses of several filters of a request. -/
def Target.conditions (t : Target) : List Filter → Result (List Scoped)
  | [] => .ok []
  | child :: children => do
    let first ← t.condition child
    let rest ← t.conditions children
    return first :: rest
end

end Listing.SearchIndex

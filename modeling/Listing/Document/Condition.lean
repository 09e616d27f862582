/-
# Conditions on documents

The filter of a request as a filter on documents. An attribute of an embedded relation is a field
of the document; one of a referenced resource is a field under the alias of its route, where a
lookup puts the referenced documents.
-/
import Listing.Document.Filter
import Listing.Relation.Route
import Listing.Operand
import Listing.Text.Pattern

namespace Listing.Document

/-- What a document query is compiled for. -/
structure Target where
  /-- The functions that requests may call, with their operators. -/
  functions : List (String × String)
  registry : Registry
  resource : Resource
  deriving Repr

/-- The error for what document stores do not have. -/
def unsupported (param : String) (feature : Feature) : QueryError :=
  .unsupportedByBackend param BackendKind.document.name feature

/-- A field below a path, or at the top. -/
def below : Option String → String → String
  | some path, name => path ++ "." ++ name
  | none, name => name

/-- The field that holds what a route reaches, given by the relations from the last to the first:
an embedded relation lies below what encloses it, a reference under its alias. -/
def fieldOfReversed (stem : String) : Route → Option String
  | [] => none
  | hop :: before =>
    if hop.relation.embedded then some (below (fieldOfReversed stem before) hop.relation.name)
    else some (Route.aliasName stem (hop :: before).reverse)

/-- The field that holds what a route reaches; the empty route reaches the document itself. -/
def fieldOfRoute (stem : String) (route : Route) : Option String :=
  fieldOfReversed stem route.reverse

/-- The field of an attribute that was found. -/
def fieldOf (stem : String) (located : Located) : String :=
  below (fieldOfRoute stem located.route) located.attr.columnName

/-- The pattern and the options of a regular expression for a needle. -/
def regexOf (op : Operator) (needle : String) : String × String :=
  let escaped := Text.escapeRegex needle
  match op with
  | .iexact => ("^" ++ escaped ++ "$", "i")
  | .startsWith => ("^" ++ escaped, "")
  | .istartsWith => ("^" ++ escaped, "i")
  | .endsWith => (escaped ++ "$", "")
  | .iendsWith => (escaped ++ "$", "i")
  | .icontains => (escaped, "i")
  | _ => (escaped, "")

/-- The operator that takes a part of a date. -/
def datePart : Operator → String
  | .year => "$year"
  | .month => "$month"
  | _ => "$dayOfMonth"

/-- The values of an operand as JSON. -/
def jsonValues (operand : Operand) : List Json := operand.values.map Scalar.toJson

/-- The filters that say that a document holds an item: one for each entry of an object, and
equality for anything else. -/
def containment (field : String) : Json → List Filter
  | .object entries => entries.map fun (key, v) => .field (field ++ "." ++ key) (.is v)
  | v => [.field field (.compare .eq v)]

/-- A document has a key. -/
def hasKey (field : String) (key : Json) : Filter := .field (field ++ "." ++ key.text) .exists_

/-- The filter that a positive operator puts on a field. -/
def fieldFilter (param : String) (op : Operator) (attr : Attribute) (field : String)
    (operand : Operand) : Result Filter :=
  let single := operand.single.toJson
  let many := jsonValues operand
  match op with
  | .exact => .ok (.field field (.compare .eq single))
  | .gt => .ok (.field field (.compare .gt single))
  | .gte => .ok (.field field (.compare .gte single))
  | .lt => .ok (.field field (.compare .lt single))
  | .lte => .ok (.field field (.compare .lte single))
  | .range => match operand with
    | .bounds low high => .ok (.field field (.between low.toJson high.toJson))
    | _ => .error (.malformedParameter param .notBounds)
  | .among | .overlap => .ok (.field field (.among many))
  | .isNull => .ok (.field field (.compare .eq .null))
  | .isNotNull => .ok (.field field (.compare .ne .null))
  | .iexact | .icontains | .startsWith | .istartsWith | .endsWith | .iendsWith =>
    let (pattern, options) := regexOf op single.text
    .ok (.field field (.regex pattern options))
  | .contains =>
    if attr.kind = .collection then .ok (.field field (.holdsAll many))
    else .ok (.all (many.flatMap (containment field)))
  | .hasKey => .ok (hasKey field single)
  | .hasAll => .ok (.all (many.map (hasKey field)))
  | .hasAny => .ok (.or (many.map (hasKey field)))
  | .year | .month | .day =>
    .ok (.expr (.apply "$eq" [.apply (datePart op) [.field field], .value single]))
  | op => .error (unsupported param (.operator op))

/-- The comparison of a computed value with a value of the request. -/
def compareExpr (comparator : Comparator) (e : Expr) (v : Json) : Expr :=
  .apply comparator.name [e, .value v]

/-- The test that a positive operator makes of a computed value. -/
def exprTest (param : String) (op : Operator) (e : Expr) (operand : Operand) : Result Expr :=
  let single := operand.single.toJson
  match op with
  | .exact => .ok (compareExpr .eq e single)
  | .gt => .ok (compareExpr .gt e single)
  | .gte => .ok (compareExpr .gte e single)
  | .lt => .ok (compareExpr .lt e single)
  | .lte => .ok (compareExpr .lte e single)
  | .range => match operand with
    | .bounds low high =>
      .ok (.apply "$and" [compareExpr .gte e low.toJson, compareExpr .lte e high.toJson])
    | _ => .error (.malformedParameter param .notBounds)
  | .among => .ok (.apply "$in" [e, .value (.array (jsonValues operand))])
  | .isNull => .ok (compareExpr .eq e .null)
  | .isNotNull => .ok (compareExpr .ne e .null)
  | .iexact | .icontains | .startsWith | .istartsWith | .endsWith | .iendsWith =>
    let (pattern, options) := regexOf op single.text
    .ok (.regexMatch e pattern options)
  | .year | .month | .day => .ok (.apply "$eq" [.apply (datePart op) [e], .value single])
  | op => .error (unsupported param (.operatorAfterFunction op))

/-- A call of a function that the request names. -/
def Target.call (t : Target) (param name : String) (arguments : List Expr) : Result Expr :=
  match t.functions.lookup (Text.lowerAscii name) with
  | some operator => .ok (.apply operator arguments)
  | none => .error (unsupported param (.function name))

/-- The filter of a comparison. -/
def Target.comparison (t : Target) (stem : String) (c : Comparison) : Result Filter := do
  let located ← t.registry.locate t.resource c.param c.path
  let field := fieldOf stem located
  let operand ← Operand.ofComparison c located.attr
  match c.function with
  | none =>
    let filter ← fieldFilter c.param c.operator.positive located.attr field operand
    return .negateIf c.operator.isNegated filter
  | some function =>
    let e ← function.transforms.foldlM (fun e name => t.call c.param name [e]) (.field field)
    match function.predicate? with
    | some name =>
      return .expr (← t.call c.param name (e :: (jsonValues operand).map .value))
    | none =>
      let op := c.valueOperator
      return .negateIf op.isNegated (.expr (← exprTest c.param op.positive e operand))

/-- The filter of a full-text search: words in fields, ignoring case. -/
def Target.fullText (t : Target) (f : FullText) : Filter :=
  let fields := (f.attributes.filterMap t.resource.attribute?).map (·.columnName)
  let words := f.words.map fun word =>
    Filter.or (fields.map fun field => .field field (.regex (Text.escapeRegex word) "i"))
  if f.requireAll then .and words else .or words

mutual
/-- The filter of a filter of a request. -/
def Target.condition (t : Target) (stem : String) : Listing.Filter → Result Filter
  | .comparison c => t.comparison stem c
  | .fullText f => .ok (t.fullText f)
  | .node connective children => do
    let parts ← t.conditions stem children
    return match connective with
      | .and => .and parts
      | .or => .or parts
      | .not => .nor parts

/-- The filters of several filters of a request. -/
def Target.conditions (t : Target) (stem : String) : List Listing.Filter → Result (List Filter)
  | [] => .ok []
  | child :: children => do
    let first ← t.condition stem child
    let rest ← t.conditions stem children
    return first :: rest
end

end Listing.Document

/-
# Conditions

The filter of a request as a condition on rows. A path becomes a column of the alias of its route,
a negated operator the negation of its positive form, and a function of the request a call, if the
store allows it. What a dialect cannot say is an error that names it.
-/
import Listing.Sql.Test

namespace Listing.Sql

/-- The condition of a comparison. -/
def Target.comparison (t : Target) (stem : String) (c : Comparison) : Result Expr := do
  let located ← t.registry.locate t.resource c.param c.path
  let column ← t.columnOf stem c.param located
  let operand ← Operand.ofComparison c located.attr
  match c.function with
  | none =>
    let test ← t.test c.param c.operator.positive located.attr.kind column operand
    return .negateIf c.operator.isNegated test
  | some function =>
    let e ← function.transforms.foldlM (fun e name => t.call c.param name [e]) column
    match function.predicate? with
    | some name => t.call c.param name (e :: operand.values.map .scalar)
    | none =>
      let op := c.valueOperator
      let test ← t.test c.param op.positive .scalar e operand
      return .negateIf op.isNegated test

/-- A character that boolean text search reads as an operator. -/
def isSearchOperator (c : Char) : Bool :=
  ['+', '-', '<', '>', '(', ')', '~', '*', '"', '@'].contains c

/-- A word of a phrase without the characters that boolean text search reads as operators. -/
def plainWord (word : String) : String :=
  String.ofList (word.toList.filter (! isSearchOperator ·))

/-- The words of a phrase for boolean text search; none when no word is left. -/
def booleanTerms? (f : FullText) : Option String :=
  let terms := ((f.words.map plainWord).filter (! ·.isEmpty)).map fun word =>
    if f.requireAll then "+" ++ word else word
  if terms.isEmpty then none else some (" ".intercalate terms)

/-- A text search without an index: words in columns, ignoring case. -/
def likeSearch (columns : List Expr) (f : FullText) : Expr :=
  let tests := f.words.map fun word =>
    let pattern := "%" ++ Text.upper (Text.escapeLike word) ++ "%"
    Expr.any (columns.map fun column => .like (upperOf column) pattern)
  if f.requireAll then .all tests else .any tests

/-- The condition of a full-text search. -/
def Target.fullText (t : Target) (f : FullText) : Expr :=
  let columns := (f.attributes.filterMap t.resource.attribute?).map fun attr =>
    Expr.column t.resource.storage attr.columnName
  match t.dialect with
  | .postgres =>
    let words := if f.requireAll then [f.phrase] else f.words
    let query := " || ".intercalate (words.map fun _ =>
      "plainto_tsquery('" ++ t.language ++ "', " ++ hole ++ ")")
    .template ("to_tsvector('" ++ t.language ++ "', concat_ws(' ', " ++ holes ", " columns ++
      ")) @@ (" ++ query ++ ")") (columns ++ words.map fun word => .scalar (.text word))
  | .mysql => match booleanTerms? f with
    | none => likeSearch columns f
    | some terms =>
      .template ("MATCH (" ++ holes ", " columns ++ ") AGAINST (" ++ hole ++ " IN BOOLEAN MODE)")
        (columns ++ [.scalar (.text terms)])
  | .sqlite => likeSearch columns f

mutual
/-- The condition of a filter. -/
def Target.condition (t : Target) (stem : String) : Filter → Result Expr
  | .comparison c => t.comparison stem c
  | .fullText f => .ok (t.fullText f)
  | .node connective children => do
    let parts ← t.conditions stem children
    return match connective with
      | .and => .all parts
      | .or => .any parts
      | .not => .not (.all parts)

/-- The conditions of several filters. -/
def Target.conditions (t : Target) (stem : String) : List Filter → Result (List Expr)
  | [] => .ok []
  | child :: children => do
    let first ← t.condition stem child
    let rest ← t.conditions stem children
    return first :: rest
end

end Listing.Sql

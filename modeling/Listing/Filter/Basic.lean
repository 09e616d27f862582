/-
# Filter trees

The condition of a request: comparisons and full-text matches under conjunctions, disjunctions and
negations.
-/
import Listing.Filter.FullText

namespace Listing

/-- One comparison of an attribute. -/
structure Comparison where
  /-- The parameter, or the place in the filter document, that it comes from. -/
  param : String
  path : Path
  operator : Operator
  function : Option FunctionChain
  /-- The operand as it was given. -/
  value : Json
  deriving Repr

/-- The operator that decides the shape of the operand. -/
def Comparison.valueOperator (c : Comparison) : Operator :=
  Listing.valueOperator c.operator c.function

/-- How the children of a node are combined. A negation denies the conjunction of its children. -/
inductive Connective
  | and | or | not
  deriving DecidableEq, Repr

/-- A filter tree. -/
inductive Filter
  | comparison (c : Comparison)
  | fullText (f : FullText)
  | node (connective : Connective) (children : List Filter)
  deriving Repr

namespace Filter

/-- Combine filters; none gives nothing, and one is left as it is. -/
def combine (connective : Connective) : List Filter → Option Filter
  | [] => none
  | [child] => some child
  | children => some (.node connective children)

/-- The conjunction of filters. -/
def all (children : List Filter) : Option Filter := combine .and children

/-- The disjunction of filters. -/
def any (children : List Filter) : Option Filter := combine .or children

/-- The negation of the conjunction of filters. -/
def negate (children : List Filter) : Option Filter :=
  (all children).map fun child => .node .not [child]

mutual
/-- The comparisons and full-text matches of a tree, from left to right. -/
def leaves : Filter → List Filter
  | .node _ children => leavesOf children
  | leaf => [leaf]

/-- The leaves of several trees. -/
def leavesOf : List Filter → List Filter
  | [] => []
  | child :: children => leaves child ++ leavesOf children
end

section

variable {m : Type → Type} [Monad m] (visit : Filter → m Unit)

mutual
/-- Visit the comparisons and full-text matches of a tree, depth first. A visit that fails ends
it. -/
def forEachLeaf : Filter → m Unit
  | .node _ children => forEachLeafOf children
  | leaf => visit leaf

/-- Visit the leaves of several trees. -/
def forEachLeafOf : List Filter → m Unit
  | [] => pure ()
  | child :: children => do
    forEachLeaf child
    forEachLeafOf children
end

end

/-- The parameter that a leaf comes from; inner nodes come from none. -/
def param? : Filter → Option String
  | .comparison c => some c.param
  | .fullText f => some f.param
  | .node .. => none

end Filter
end Listing

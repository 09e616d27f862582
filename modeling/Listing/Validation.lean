/-
# Validation

A request is valid for a resource when every path leads to an attribute, every operator applies to
the kind of its attribute, every operand can be read, and every total and group suits the kind it
is computed of. The first part that does not is the error.
-/
import Listing.Operand
import Listing.Relation.Route
import Listing.Request.Basic

namespace Listing

/-- The validation of a comparison. -/
def Comparison.validate (c : Comparison) (registry : Registry) (resource : Resource) :
    Result Unit := do
  let located ← registry.locate resource c.param c.path
  let attr := located.attr
  if !c.operator.accepts attr.kind then
    .error (.unsupportedOperator c.param c.operator.name attr.name attr.kind.name)
  else
    let _ ← Operand.ofComparison c attr

/-- The validation of one attribute of a full-text search. -/
def FullText.validateAttribute (f : FullText) (resource : Resource) (name : String) :
    Result Unit :=
  match resource.attribute? name with
  | none => .error (.unknownAttribute f.param name)
  | some attr =>
    if attr.kind = .string then .ok ()
    else .error (.unsupportedOperator f.param Key.textQuery name attr.kind.name)

/-- The validation of a full-text search. -/
def FullText.validate (f : FullText) (resource : Resource) : Result Unit :=
  if f.attributes.isEmpty then
    .error (.unsupportedOperator f.param Key.textQuery resource.name
      "resource without full-text attributes")
  else f.attributes.forM (f.validateAttribute resource)

/-- The validation of a leaf of a filter. -/
def Filter.validateLeaf (registry : Registry) (resource : Resource) : Filter → Result Unit
  | .comparison c => c.validate registry resource
  | .fullText f => f.validate resource
  | .node .. => .ok ()

/-- Check that a kind satisfies a condition, for a path given in a parameter. -/
def checkKind (param operator : String) (path : Path) (kind : Kind) (accepted : Bool) :
    Result Unit :=
  if accepted then .ok ()
  else .error (.unsupportedOperator param operator path.label kind.name)

/-- The validation of one attribute to sort by. -/
def OrderItem.validate (item : OrderItem) (registry : Registry) (resource : Resource) :
    Result Unit := do
  let kind := (← registry.locate resource Param.order item.path).attr.kind
  checkKind Param.order Param.order item.path kind kind.isSingle

/-- The kinds of attributes that a function of totals applies to. -/
def MetricFunction.accepts : MetricFunction → Kind → Bool
  | .count, _ => true
  | .sum, kind | .avg, kind => kind == .numeric
  | .min, kind | .max, kind => kind.isOrdered

/-- The validation of one total. -/
def Metric.validate (m : Metric) (registry : Registry) (resource : Resource) : Result Unit :=
  match m.path with
  | none => .ok ()
  | some path => do
    let kind := (← registry.locate resource Param.totals path).attr.kind
    checkKind Param.totals m.function.name path kind (m.function.accepts kind)

/-- The validation of one group. -/
def validateGroup (registry : Registry) (resource : Resource) (path : Path) : Result Unit := do
  let kind := (← registry.locate resource Param.groupBy path).attr.kind
  checkKind Param.groupBy Param.groupBy path kind kind.isSingle

/-- The validation of a request. -/
def Request.validate (request : Request) (registry : Registry) (resource : Resource) :
    Result Unit := do
  request.filter.forM (·.forEachLeaf (Filter.validateLeaf registry resource))
  request.order.forM (·.validate registry resource)
  request.aggregate.metrics.forM (·.validate registry resource)
  request.aggregate.groupBy.forM (validateGroup registry resource)
  let _ ← resource.fetched request.fetch

end Listing

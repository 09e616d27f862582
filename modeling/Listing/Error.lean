/-
# Rejected requests

Every way in which a request can be refused, as the cause and not as its wording. A cause names the
parameter at fault, or the place in the filter document; the wording is in one function per type.
A request has at most one error: the first that is found.
-/
import Listing.Json.Printer
import Listing.Operator
import Listing.Path
import Listing.Sql.Dialect

namespace Listing

/-- Why a parameter, or one comparison, cannot be read. -/
inductive ParameterFault
  | emptySegment
  | noFunction
  | comparedPredicate
  | fullTextKey
  | fullTextEmptyName
  | fullTextTerms
  | fullTextNotText
  | fullTextEmpty
  | tooLong
  | repeated
  /-- A parameter with an operator for one value was given none or several. -/
  | manyValues (op : Operator)
  | notSingle (op : Operator)
  | notList (op : Operator)
  | emptyList (op : Operator)
  | notTwo (op : Operator)
  | notBounds
  | notInteger
  | nullOperand
  | notOfKind (value : Json) (kind : Kind)
  | orderList
  | orderName (text : String)
  | notPositive (text : String)
  | notNatural (text : String)
  | notBoolean (text : String)
  /-- A fault in the words of the caller. -/
  | stated (reason : String)
  deriving Repr

/-- Why the filter document cannot be read. -/
inductive FilterFault
  | invalidJson
  | notObject
  | tooDeep
  /-- A key of the document is no key of a comparison. -/
  | badKey (key : String) (fault : ParameterFault)
  | itemNotObject
  | notObjectOrList
  /-- A fault in the words of the caller. -/
  | stated (reason : String)
  deriving Repr

/-- Why a request for totals cannot be read. -/
inductive AggregateFault
  | invalidJson
  | notMetric
  | notObjectOrArray
  | limitWithoutGroups
  | unknownFunction (name : String)
  | notPath (text : String)
  | needsAttribute (function : String)
  | groupNames
  | noGroup
  | attributeList (function : String)
  | groupLimit
  /-- A fault in the words of the caller. -/
  | stated (reason : String)
  deriving Repr

/-- What a store cannot express. -/
inductive Feature
  | operator (op : Operator)
  | operatorAfterFunction (op : Operator)
  | function (name : String)
  | embeddedRelation (name : String)
  | referenceRelation (name : String)
  | orderThroughMany (path : Path)
  | nestedAggregate (path : Path)
  /-- A feature that one dialect lacks. -/
  | onDialect (feature : Feature) (dialect : Sql.Dialect)
  /-- A feature in the words of the caller. -/
  | stated (feature : String)
  deriving Repr

/-- A rejected request. -/
inductive QueryError
  | malformedParameter (param : String) (fault : ParameterFault)
  | malformedFilter (param : String) (fault : FilterFault)
  | malformedAggregate (param : String) (fault : AggregateFault)
  | unknownAttribute (param attr : String)
  | unsupportedOperator (param operator attr kind : String)
  | invalidRelationPath (param segment : String)
  | unsupportedByBackend (param backend : String) (feature : Feature)
  deriving Repr

/-- A text between single quotes. -/
def inQuotes (s : String) : String := "'" ++ s ++ "'"

def ParameterFault.message : ParameterFault → String
  | .emptySegment => "attribute path has an empty segment"
  | .noFunction => "function chain must name at least one function"
  | .comparedPredicate => "sfunc predicates cannot be compared"
  | .fullTextKey => "expected q, q__and, q__or or q__<attributes>[__and|__or]"
  | .fullTextEmptyName => "full-text attribute list has an empty name"
  | .fullTextTerms => "full-text terms must be strings"
  | .fullTextNotText => "full-text query must be a string"
  | .fullTextEmpty => "full-text query is empty"
  | .tooLong => "value is too long"
  | .repeated => "given more than once"
  | .manyValues op => "operator " ++ inQuotes op.name ++ " expects a single value"
  | .notSingle op => inQuotes op.name ++ " expects a single value"
  | .notList op => inQuotes op.name ++ " expects a list"
  | .emptyList op => inQuotes op.name ++ " expects a non-empty list"
  | .notTwo op => inQuotes op.name ++ " expects exactly two values"
  | .notBounds => "'range' expects two values"
  | .notInteger => "expected an integer"
  | .nullOperand => "null is not a valid operand, use isnull"
  | .notOfKind value kind =>
    inQuotes value.render ++ " is not a valid " ++ kind.name ++ " value"
  | .orderList => "expected a JSON array of strings"
  | .orderName text => inQuotes text ++ " does not name an attribute"
  | .notPositive text => inQuotes text ++ " is not a positive integer"
  | .notNatural text => inQuotes text ++ " is not a non-negative integer"
  | .notBoolean text => inQuotes text ++ " is not a boolean"
  | .stated reason => reason

/-- The message of a malformed parameter. -/
def malformedParameterMessage (param reason : String) : String :=
  "Parameter " ++ inQuotes param ++ " is malformed: " ++ reason

def FilterFault.message : FilterFault → String
  | .invalidJson => "invalid JSON"
  | .notObject => "expected a JSON object"
  | .tooDeep => "filter is nested too deeply"
  | .badKey key fault => malformedParameterMessage key fault.message
  | .itemNotObject => "expected an object"
  | .notObjectOrList => "expected an object or a list of objects"
  | .stated reason => reason

def AggregateFault.message : AggregateFault → String
  | .invalidJson => "invalid JSON"
  | .notMetric => "expected metric names or objects"
  | .notObjectOrArray => "expected a JSON object or array"
  | .limitWithoutGroups => "group_limit requires group_by"
  | .unknownFunction name => inQuotes name ++ " is not an aggregate function"
  | .notPath text => inQuotes text ++ " is not an attribute path"
  | .needsAttribute function => inQuotes function ++ " needs an attribute"
  | .groupNames => "expected an attribute name or a list of names"
  | .noGroup => "is empty"
  | .attributeList function =>
    inQuotes function ++ " expects null, an attribute or a list of attributes"
  | .groupLimit => "group_limit must be a positive integer"
  | .stated reason => reason

def Feature.message : Feature → String
  | .operator op => inQuotes op.name
  | .operatorAfterFunction op => inQuotes op.name ++ " after a function"
  | .function name => "function " ++ inQuotes name
  | .embeddedRelation name => "embedded relation " ++ inQuotes name
  | .referenceRelation name => "reference relation " ++ inQuotes name
  | .orderThroughMany path => "ordering by to-many relation " ++ inQuotes path.label
  | .nestedAggregate path => "aggregating over nested path " ++ inQuotes path.label
  | .onDialect feature dialect => feature.message ++ " on " ++ dialect.name
  | .stated feature => feature

namespace QueryError

/-- The stable name of an error's kind. -/
def code : QueryError → String
  | .malformedParameter .. => "malformed_parameter"
  | .malformedFilter .. => "malformed_filter"
  | .malformedAggregate .. => "malformed_aggregate"
  | .unknownAttribute .. => "unknown_attribute"
  | .unsupportedOperator .. => "unsupported_operator"
  | .invalidRelationPath .. => "invalid_relation_path"
  | .unsupportedByBackend .. => "unsupported_by_backend"

/-- The parameter at fault, or the place in the filter document. -/
def param : QueryError → String
  | .malformedParameter param _ | .malformedFilter param _ | .malformedAggregate param _
  | .unknownAttribute param _ | .unsupportedOperator param .. | .invalidRelationPath param _
  | .unsupportedByBackend param .. => param

/-- The message of an error. -/
def message : QueryError → String
  | .malformedParameter param fault => malformedParameterMessage param fault.message
  | .malformedFilter param fault =>
    "Filter " ++ inQuotes param ++ " is malformed: " ++ fault.message
  | .malformedAggregate param fault =>
    "Aggregation " ++ inQuotes param ++ " is malformed: " ++ fault.message
  | .unknownAttribute param attr =>
    "Param " ++ inQuotes param ++ " is invalid, " ++ inQuotes attr ++ " is not a known attribute"
  | .unsupportedOperator param operator attr kind =>
    "Param " ++ inQuotes param ++ " is invalid, operator " ++ inQuotes operator ++
      " cannot be applied to " ++ kind ++ " attribute " ++ inQuotes attr
  | .invalidRelationPath param segment =>
    "Param " ++ inQuotes param ++ " is invalid, " ++ inQuotes segment ++ " is not a relation"
  | .unsupportedByBackend param backend feature =>
    "Param " ++ inQuotes param ++ " is not supported by the " ++ backend ++ " backend: " ++
      feature.message

end QueryError

/-- What can be computed from a request, or the reason why not. -/
abbrev Result (α : Type) := Except QueryError α

end Listing

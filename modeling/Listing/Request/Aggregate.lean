/-
# Totals

A request for totals names metrics over all rows of the filter, the attributes to group them by,
and how many groups to keep within each parent group. Metrics are given as tokens separated by
commas, as a JSON object from functions to attributes, or as a JSON array of both; groups in
parameters of their own or inside of the object. Groups without a metric are counted.
-/
import Listing.Error
import Listing.Json.Reader
import Listing.Params

namespace Listing

/-- What is computed of an attribute over the rows of a group. -/
inductive MetricFunction
  | count | sum | avg | min | max
  deriving DecidableEq, Repr

namespace MetricFunction

/-- The name of a function in requests and labels. -/
def name : MetricFunction → String
  | .count => "count"
  | .sum => "sum"
  | .avg => "avg"
  | .min => "min"
  | .max => "max"

/-- The function with a name. -/
def ofName? (name : String) : Option MetricFunction :=
  [count, sum, avg, min, max].find? (·.name == name)

end MetricFunction

/-- One total. Only a count may lack a path: it counts rows. -/
structure Metric where
  function : MetricFunction
  path : Option Path
  deriving DecidableEq, Repr

/-- The name of a total in results. -/
def Metric.label (m : Metric) : String :=
  match m.path with
  | none => m.function.name
  | some path => m.function.name ++ "_" ++ path.label

/-- The totals of a request. -/
structure Aggregate where
  metrics : List Metric := []
  groupBy : List Path := []
  /-- How many groups to keep of each parent group, those first in order. -/
  groupLimit : Option Nat := none
  deriving DecidableEq, Repr, Inhabited

namespace Aggregate

/-- Whether no totals are asked for. -/
def isEmpty (a : Aggregate) : Bool := a.metrics.isEmpty && a.groupBy.isEmpty

/-- The paths of totals, groups first. -/
def paths (a : Aggregate) : List Path := a.groupBy ++ a.metrics.filterMap (·.path)

/-- Add an element to a list that does not hold it yet. -/
def addNew {α : Type} [DecidableEq α] (xs : List α) (x : α) : List α :=
  if x ∈ xs then xs else xs ++ [x]

def addMetric (a : Aggregate) (m : Metric) : Aggregate :=
  { a with metrics := addNew a.metrics m }

def addGroup (a : Aggregate) (path : Path) : Aggregate :=
  { a with groupBy := addNew a.groupBy path }

/-- The metric of a function and an attribute path. -/
def readMetric (function : String) (path : Option String) : Result Metric :=
  match MetricFunction.ofName? function with
  | none => .error (.malformedAggregate Param.totals (.unknownFunction function))
  | some f => match path with
    | none =>
      if f = .count then .ok ⟨f, none⟩
      else .error (.malformedAggregate Param.totals (.needsAttribute f.name))
    | some text => match Path.read? text with
      | some path => .ok ⟨f, some path⟩
      | none => .error (.malformedAggregate Param.totals (.notPath text))

/-- Cut a text at the first separator of paths. -/
def splitOnce (s : String) : String × Option String :=
  match Path.splitText s with
  | [] => (s, none)
  | [_] => (s, none)
  | first :: rest => (first, some (Path.joinText rest))

/-- The metric of a token: a function, and after a separator its attribute. -/
def readToken (token : String) : Result Metric :=
  let (function, path) := splitOnce token
  readMetric function path

/-- The path of a group. -/
def readGroup (text : String) : Result Path :=
  match Path.read? text with
  | some path => .ok path
  | none => .error (.malformedAggregate Param.groupBy (.notPath text))

/-- A number of groups to keep. -/
def readGroupLimit (value : Json) : Result Nat :=
  let number := match value with
    | .string s => Number.readUnsigned? (Text.trim s)
    | value => value.asUnsigned?
  match number with
  | some (n + 1) => .ok (n + 1)
  | _ => .error (.malformedAggregate Param.groupLimit .groupLimit)

/-- A list of names: a text with commas, or a JSON array of texts. -/
def nameList? : Json → Option (List String)
  | .string s => some (Text.commaItems s)
  | .array items => items.mapM Json.asString?
  | _ => none

def addTokens (a : Aggregate) (tokens : List String) : Result Aggregate :=
  tokens.foldlM (fun a token => do return a.addMetric (← readToken token)) a

def addGroups (a : Aggregate) (names : List String) : Result Aggregate :=
  names.foldlM (fun a name => do return a.addGroup (← readGroup name)) a

/-- Add the metrics of one function. -/
def addMetrics (a : Aggregate) (function : String) (paths : List String) : Result Aggregate :=
  if paths.isEmpty then do return a.addMetric (← readMetric function none)
  else paths.foldlM (fun a path => do return a.addMetric (← readMetric function (some path))) a

/-- The attributes that the value of a function lists. -/
def functionPaths (function : String) : Json → Result (List String)
  | .null => .ok []
  | value => match nameList? value with
    | some paths => .ok paths
    | none => .error (.malformedAggregate Param.totals (.attributeList function))

/-- Add one entry of a JSON object. -/
def addEntry (a : Aggregate) (key : String) (value : Json) : Result Aggregate :=
  if key = Param.groupBy then
    match nameList? value with
    | none => .error (.malformedAggregate Param.groupBy .groupNames)
    | some [] => .error (.malformedAggregate Param.groupBy .noGroup)
    | some names => a.addGroups names
  else if key = Param.groupLimit then do
    return { a with groupLimit := some (← readGroupLimit value) }
  else do
    a.addMetrics key (← functionPaths key value)

def addEntries (a : Aggregate) (entries : List (String × Json)) : Result Aggregate :=
  entries.foldlM (fun a entry => a.addEntry entry.1 entry.2) a

/-- Add one item of a JSON array. -/
def addItem (a : Aggregate) : Json → Result Aggregate
  | .string token => do return a.addMetric (← readToken token)
  | .object entries => a.addEntries entries
  | _ => .error (.malformedAggregate Param.totals .notMetric)

/-- Whether a text is meant as JSON. -/
def looksLikeJson (text : String) : Bool :=
  text.toList.head? == some '{' || text.toList.head? == some '['

/-- Add the value of one parameter. -/
def addValue (a : Aggregate) (value : String) : Result Aggregate :=
  let text := Text.trim value
  if looksLikeJson text then
    match Json.read? text with
    | none => .error (.malformedAggregate Param.totals .invalidJson)
    | some (.object entries) => a.addEntries entries
    | some (.array items) => items.foldlM addItem a
    | some _ => .error (.malformedAggregate Param.totals .notObjectOrArray)
  else a.addTokens (Text.commaItems text)

/-- Set the number of groups to keep, if it is given in a parameter of its own. -/
def withLimitParam (a : Aggregate) : Option String → Result Aggregate
  | none => .ok a
  | some text => do return { a with groupLimit := some (← readGroupLimit (.string text)) }

/-- Check that a limit has groups to limit, and count groups that have no metric. -/
def finish (a : Aggregate) : Result Aggregate :=
  if a.groupLimit.isSome && a.groupBy.isEmpty then
    .error (.malformedAggregate Param.groupLimit .limitWithoutGroups)
  else if a.metrics.isEmpty && !a.groupBy.isEmpty then
    .ok { a with metrics := [⟨.count, none⟩] }
  else .ok a

/-- The totals that the three parameters ask for. -/
def read (totals groupBy : List String) (groupLimit : Option String) : Result Aggregate := do
  let a ← totals.foldlM addValue {}
  let a ← groupBy.foldlM (fun a value => a.addGroups (Text.commaItems value)) a
  let a ← a.withLimitParam groupLimit
  a.finish

end Aggregate
end Listing

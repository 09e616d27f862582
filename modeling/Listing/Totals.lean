/-
# Totals of a response

Every store gives totals as flat rows, with one column for each group and each metric. A response
has one entry for each metric instead: its value, or a tree with one level of keys for each group.
Where two rows have the same groups, the later one counts.
-/
import Listing.Json.Printer

namespace Listing

/-- Named values: a row of a result, or the entries of an object. -/
abbrev Row := List (String × Json)

namespace Totals

/-- What the entries of totals begin with. -/
def stem : String := "total_"

/-- The key of a group: a text by itself, anything else as JSON; a missing value is null. -/
def groupKey (row : Row) (dimension : String) : String :=
  match row.lookup dimension with
  | some value => value.text
  | none => Json.null.text

/-- The value of a metric in a row. -/
def metricValue (row : Row) (metric : String) : Json := (row.lookup metric).getD .null

/-- Put a value into a tree under a key for each level. -/
def insert (value : Json) : List String → Row → Row
  | [], tree => tree
  | [key], tree => insertEntry key value tree
  | key :: keys, tree => match tree.lookup key with
    | none => insertEntry key (.object (insert value keys [])) tree
    | some (.object inner) => insertEntry key (.object (insert value keys inner)) tree
    | some _ => tree

/-- The tree of a metric. -/
def tree (dimensions : List String) (metric : String) (rows : List Row) : Row :=
  rows.foldl
    (fun acc row => insert (metricValue row metric) (dimensions.map (groupKey row)) acc) []

/-- What a response says of a metric: without groups, its value in the only row. -/
def ofMetric (dimensions : List String) (rows : List Row) (metric : String) : Json :=
  if dimensions.isEmpty then
    match rows with
    | [] => .null
    | row :: _ => metricValue row metric
  else .object (tree dimensions metric rows)

/-- The totals of a response. -/
def shape (dimensions metrics : List String) (rows : List Row) : Row :=
  metrics.foldl
    (fun acc metric => insertEntry (stem ++ metric) (ofMetric dimensions rows metric) acc) []

end Totals
end Listing

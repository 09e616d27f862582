/-
# Pipelines

The stages that a document store runs one after the other. Keys of sorts, groups and projections
are in the order in which they were written; writing a key again keeps its place.
-/
import Listing.Document.Filter
import Listing.Request.Order

namespace Listing.Document

/-- What a group computes of its documents. -/
inductive Accumulator
  /-- The number of documents. -/
  | countAll
  /-- The number of documents in which a field is neither missing nor null. -/
  | countPresent (field : String)
  /-- The set of the identities of documents. -/
  | identities
  /-- An accumulator over a field. -/
  | over (operator field : String)
  /-- The list of the documents themselves. -/
  | documents
  deriving Repr

/-- How a field of a result comes about. -/
inductive Projection
  | hidden
  | shown
  /-- The value of another field. -/
  | renamed (field : String)
  /-- The first elements of a list. -/
  | firstOf (field : String) (count : Nat)
  deriving Repr

inductive Stage
  /-- Put the documents of another collection whose `foreignField` equals `localField` under
  `label`. -/
  | lookup (collection localField foreignField label : String)
  /-- One document for each element of a list; `keepEmpty` keeps those without an element. -/
  | unwind (field : String) (keepEmpty : Bool)
  | keep (filter : Filter)
  | sort (keys : List (String × Direction))
  | skip (count : Nat)
  | limit (count : Nat)
  | unset (fields : List String)
  | count (label : String)
  /-- Group by the fields under their labels, or all together where there are none. -/
  | group (by_ : List (String × String)) (fields : List (String × Accumulator))
  /-- Replace lists by their lengths. -/
  | lengths (fields : List String)
  | project (fields : List (String × Projection))
  /-- Replace each document by what a field of it holds. -/
  | promote (field : String)
  deriving Repr

/-- The JSON form of an accumulator. -/
def Accumulator.toJson : Accumulator → Json
  | .countAll => .object [("$sum", .int 1)]
  | .countPresent field =>
    .object [("$sum", .object [("$cond", .array
      [.object [("$gt", .array [.string (fieldRef field), .null])], .int 1, .int 0])])]
  | .identities => .object [("$addToSet", .string (fieldRef "_id"))]
  | .over operator field => .object [(operator, .string (fieldRef field))]
  | .documents => .object [("$push", .string "$$ROOT")]

/-- The JSON form of a projection. -/
def Projection.toJson : Projection → Json
  | .hidden => .int 0
  | .shown => .int 1
  | .renamed field => .string (fieldRef field)
  | .firstOf field count => .object [("$slice", .array [.string (fieldRef field), .int count])]

/-- The sign of a direction in a sort. -/
def directionSign : Direction → Json
  | .ascending => .int 1
  | .descending => .int (-1)

/-- The identity by which documents are grouped. -/
def groupId (by_ : List (String × String)) : Json :=
  if by_.isEmpty then .null
  else Json.ofEntries (by_.map fun (label, field) => (label, .string (fieldRef field)))

/-- The JSON form of a stage. -/
def Stage.toJson : Stage → Json
  | .lookup collection localField foreignField label =>
    .object [("$lookup", .object [("from", .string collection), ("localField", .string localField),
      ("foreignField", .string foreignField), ("as", .string label)])]
  | .unwind field true =>
    .object [("$unwind", .object [("path", .string (fieldRef field)),
      ("preserveNullAndEmptyArrays", .bool true)])]
  | .unwind field false => .object [("$unwind", .string (fieldRef field))]
  | .keep filter => .object [("$match", filter.toJson)]
  | .sort keys =>
    .object [("$sort", .object (keys.map fun (key, d) => (key, directionSign d)))]
  | .skip n => .object [("$skip", .int n)]
  | .limit n => .object [("$limit", .int n)]
  | .unset fields => .object [("$unset", Json.strings fields)]
  | .count label => .object [("$count", .string label)]
  | .group by_ fields =>
    .object [("$group", Json.ofEntries
      (("_id", groupId by_) :: fields.map fun (label, a) => (label, a.toJson)))]
  | .lengths fields =>
    .object [("$set", Json.ofEntries (fields.map fun field =>
      (field, .object [("$size", .string (fieldRef field))])))]
  | .project fields =>
    .object [("$project", .object (fields.map fun (label, p) => (label, p.toJson)))]
  | .promote field => .object [("$replaceRoot", .object [("newRoot", .string (fieldRef field))])]

/-- The keys of a sort; a field that is named again keeps its place and takes the new direction. -/
def sortKeys (keys : List (String × Direction)) : List (String × Direction) :=
  keys.foldl (fun acc key => insertEntry key.1 key.2 acc) []

end Listing.Document

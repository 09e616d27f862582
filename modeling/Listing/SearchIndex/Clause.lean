/-
# Clauses of a search

The query language of search indexes. A clause tests fields of a document by their dotted paths; a
nested clause tests one object of a list at a time, so that all it says must hold of the same
object. Every clause has a JSON form, which is what the index is sent.
-/
import Listing.Json.Basic

namespace Listing.SearchIndex

/-- The comparisons of a range. -/
inductive Bound
  | gt | gte | lt | lte
  deriving DecidableEq, Repr

def Bound.name : Bound → String
  | .gt => "gt"
  | .gte => "gte"
  | .lt => "lt"
  | .lte => "lte"

/-- The part of a date that a script takes. -/
inductive DatePart
  | year | month | day
  deriving DecidableEq, Repr

/-- The call that takes a part of a date. -/
def DatePart.getter : DatePart → String
  | .year => "getYear"
  | .month => "getMonthValue"
  | .day => "getDayOfMonth"

inductive Clause
  | matchAll
  /-- The field holds this value. -/
  | term (field : String) (v : Json)
  /-- The field holds this value but for case. -/
  | foldedTerm (field : String) (v : Json)
  /-- The field holds one of these values. -/
  | terms (field : String) (values : List Json)
  | range (field : String) (bounds : List (Bound × Json))
  /-- The field is neither missing nor null. -/
  | present (field : String)
  | startsWith (field : String) (v : Json) (ignoreCase : Bool)
  | wildcard (field pattern : String) (ignoreCase : Bool)
  /-- A text search in one field. -/
  | text (field : String) (v : Json)
  /-- A text search in several fields, for all words of a phrase or for any. -/
  | phrase (words : String) (fields : List String) (requireAll : Bool)
  | datePart (part : DatePart) (field : String) (v : Json)
  | all (clauses : List Clause)
  | any (clauses : List Clause)
  /-- None of the clauses holds. -/
  | none (clauses : List Clause)
  /-- One object of the list at a path satisfies a clause. -/
  | nested (path : String) (clause : Clause)
  /-- A clause that does not rank what it finds. -/
  | unranked (clause : Clause)
  deriving Repr, Inhabited

namespace Clause

/-- The object with one entry. -/
def entry (key : String) (v : Json) : Json := .object [(key, v)]

/-- A boolean clause. -/
def boolean (entries : List (String × Json)) : Json := entry "bool" (.object entries)

/-- The test of a part of a date, in the script language of the index. -/
def script (part : DatePart) : String :=
  "doc[params.field].size() != 0 && doc[params.field].value." ++ part.getter ++
    "() == params.value"

mutual
/-- The JSON form of a clause. -/
def toJson : Clause → Json
  | .matchAll => entry "match_all" (.object [])
  | .term field v => entry "term" (entry field v)
  | .foldedTerm field v =>
    entry "term" (entry field (.object [("value", v), ("case_insensitive", .bool true)]))
  | .terms field values => entry "terms" (entry field (.array values))
  | .range field bounds =>
    entry "range" (entry field (.object (bounds.map fun (bound, v) => (bound.name, v))))
  | .present field => entry "exists" (entry "field" (.string field))
  | .startsWith field v ignoreCase =>
    entry "prefix" (entry field
      (.object [("value", v), ("case_insensitive", .bool ignoreCase)]))
  | .wildcard field pattern ignoreCase =>
    entry "wildcard" (entry field
      (.object [("value", .string pattern), ("case_insensitive", .bool ignoreCase)]))
  | .text field v => entry "match" (entry field (entry "query" v))
  | .phrase words fields requireAll =>
    entry "multi_match" (.object [("query", .string words), ("fields", Json.strings fields),
      ("operator", .string (if requireAll then "and" else "or"))])
  | .datePart part field v =>
    entry "script" (entry "script" (.object [("source", .string (script part)),
      ("params", .object [("field", .string field), ("value", v)])]))
  | .all clauses => boolean [("must", .array (toJsonAll clauses))]
  | .any clauses =>
    boolean [("should", .array (toJsonAll clauses)), ("minimum_should_match", .int 1)]
  | .none clauses => boolean [("must_not", .array (toJsonAll clauses))]
  | .nested path clause =>
    entry "nested" (.object [("path", .string path), ("query", clause.toJson)])
  | .unranked clause => entry "constant_score" (entry "filter" clause.toJson)

/-- The JSON forms of several clauses. -/
def toJsonAll : List Clause → List Json
  | [] => []
  | clause :: clauses => clause.toJson :: toJsonAll clauses
end

/-- All of some clauses; one is left as it is. -/
def allOf : List Clause → Clause
  | [clause] => clause
  | clauses => .all clauses

/-- Any of some clauses; one is left as it is. -/
def anyOf : List Clause → Clause
  | [clause] => clause
  | clauses => .any clauses

/-- A clause or its negation. -/
def negateIf (negated : Bool) (clause : Clause) : Clause :=
  if negated then .none [clause] else clause

/-- A clause inside of lists of objects, outermost first. -/
def inLists (lists : List String) (clause : Clause) : Clause := lists.foldr .nested clause

end Clause
end Listing.SearchIndex

/-
# Building a filter

Simple parameters are comparisons that must all hold. The filter document is a JSON object whose
entries must all hold: under `and`, `or` and `not` stands an object, whose entries are combined by
the word, or a list of objects, each the conjunction of its entries, combined by the word; any
other key is that of a comparison. What is empty adds nothing. The place of an entry in the
document is written as the keys and positions that lead to it.
-/
import Listing.Filter.Basic
import Listing.Json.Reader
import Listing.Options
import Listing.Params

namespace Listing

/-- The length of the longest value of a simple parameter, in bytes. -/
def maxValueLength : Nat := 10000

/-- The deepest nesting of `and`, `or` and `not` in a filter document. -/
def maxFilterDepth : Nat := 32

/-- The connective that a key of a filter document names. -/
def Connective.ofKey? (key : String) : Option Connective :=
  if key = "and" then some .and
  else if key = "or" then some .or
  else if key = "not" then some .not
  else none

/-- Combine the parts of an entry under a connective. -/
def Connective.join : Connective → List Filter → Option Filter
  | .and, parts => Filter.all parts
  | .or, parts => Filter.any parts
  | .not, parts => Filter.negate parts

namespace FilterDocument

/-- The place of an entry below a place. -/
def entryPlace (place key : String) : String := place ++ "." ++ key

/-- The place of a list item below a place. -/
def itemPlace (place : String) (index : Nat) : String :=
  place ++ "[" ++ String.ofList (Number.digits index) ++ "]"

/-- The leaf that an entry with the key of a comparison stands for. -/
def readLeaf (resource : Resource) (place key : String) (value : Json) : Result Filter :=
  match Key.read key with
  | .error fault => .error (.malformedFilter place (.badKey key fault))
  | .ok (.fullText textKey) => do
    return .fullText (← FullText.ofKey place textKey value resource)
  | .ok (.comparison path operator function) =>
    .ok (.comparison { param := place, path, operator, function, value })

/-- Refuse an object that is nested too deeply. -/
def checkDepth (place : String) (depth : Nat) : Result Unit :=
  if maxFilterDepth < depth then .error (.malformedFilter place .tooDeep) else .ok ()

mutual
/-- The filters of the entries of an object. -/
def readEntries (resource : Resource) (place : String) (depth : Nat) :
    List (String × Json) → Result (List Filter)
  | [] => .ok []
  | (key, value) :: entries => do
    let place' := entryPlace place key
    match Connective.ofKey? key with
    | some connective =>
      let parts ← readOperand resource place' (depth + 1) value
      let rest ← readEntries resource place depth entries
      return (connective.join parts).toList ++ rest
    | none =>
      let leaf ← readLeaf resource place' key value
      let rest ← readEntries resource place depth entries
      return leaf :: rest

/-- The filters that a connective combines. -/
def readOperand (resource : Resource) (place : String) (depth : Nat) :
    Json → Result (List Filter)
  | .object entries => do
    checkDepth place depth
    readEntries resource place depth entries
  | .array items => readItems resource place depth 0 items
  | _ => .error (.malformedFilter place .notObjectOrList)

/-- The conjunctions of the objects of a list, from position `index` on. -/
def readItems (resource : Resource) (place : String) (depth index : Nat) :
    List Json → Result (List Filter)
  | [] => .ok []
  | .object entries :: items => do
    let place' := itemPlace place index
    checkDepth place' depth
    let parts ← readEntries resource place' depth entries
    let rest ← readItems resource place depth (index + 1) items
    return (Filter.all parts).toList ++ rest
  | _ :: _ => .error (.malformedFilter (itemPlace place index) .itemNotObject)
end

/-- The filter of a document; none when it holds nothing. -/
def read (resource : Resource) (text : String) : Result (Option Filter) :=
  match Json.read? text with
  | none => .error (.malformedFilter Param.search .invalidJson)
  | some (.object entries) => do
    return Filter.all (← readEntries resource Param.search 0 entries)
  | some _ => .error (.malformedFilter Param.search .notObject)

end FilterDocument

/-- The filter of a request while its parameters are read. -/
structure FilterBuilder where
  /-- The simple parameters, in order. -/
  simple : List Filter := []
  /-- The filter documents, combined. -/
  document : Option Filter := none

namespace FilterBuilder

/-- The leaf that a simple parameter stands for. -/
def readParam (resource : Resource) (options : Options) (key : String) (values : List String) :
    Result Filter :=
  if values.any (maxValueLength < ·.utf8ByteSize) then .error (.malformedParameter key .tooLong)
  else match Key.read key with
    | .error fault => .error (.malformedParameter key fault)
    | .ok (.fullText textKey) => do
      let value := match values with
        | [value] => Json.string value
        | values => Json.strings values
      return .fullText (← FullText.ofKey key textKey value resource)
    | .ok (.comparison path operator function) =>
      match Key.readOperand (valueOperator operator function) values options.separator with
      | .error fault => .error (.malformedParameter key fault)
      | .ok value => .ok (.comparison { param := key, path, operator, function, value })

/-- Add a simple parameter with all of its values. -/
def addParam (b : FilterBuilder) (resource : Resource) (options : Options) (key : String)
    (values : List String) : Result FilterBuilder := do
  return { b with simple := b.simple ++ [← readParam resource options key values] }

/-- Add a filter document. -/
def addDocument (b : FilterBuilder) (resource : Resource) (text : String) :
    Result FilterBuilder := do
  let read ← FilterDocument.read resource text
  return { b with document := match b.document, read with
    | some earlier, some filter => Filter.all [earlier, filter]
    | earlier, filter => earlier.or filter }

/-- The filter of the request: the documents, then the simple parameters. -/
def build (b : FilterBuilder) : Option Filter :=
  match b.document, Filter.all b.simple with
  | some document, some simple => some (.node .and [document, simple])
  | document, simple => document.or simple

end FilterBuilder
end Listing

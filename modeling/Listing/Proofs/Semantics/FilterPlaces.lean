/-
# Places in a filter document

A place in a JSON value is where some steps lead, each to an entry of an object or to an item of a
list. The text of a place is that of its steps, after the name of the parameter that the document
came in. It can be read again, unless a key has a dot or a bracket.
-/
import Listing.Document.Condition
import Listing.Filter.Builder
import Listing.Proofs.JsonTexts
import Listing.SearchIndex.Condition
import Listing.Sql.Condition
import Listing.Validation
import Mathlib.Data.List.Forall2

namespace Listing

/-- A step from a value into it. -/
inductive Step
  | key (name : String)
  | item (index : Nat)
  deriving DecidableEq

/-- The steps from the document to a value inside of it. -/
abbrev Position := List Step

namespace Json

/-- What a step leads to. -/
def step? (value : Json) : Step → Option Json
  | .key name => value.get? name
  | .item index => value.asArray?.bind (·[index]?)

/-- What some steps lead to, one after the other. -/
def follow? (value : Json) : Position → Option Json
  | [] => some value
  | step :: steps => (value.step? step).bind (·.follow? steps)

mutual
/-- All objects in a value have entries with a property. -/
def Everywhere (p : List (String × Json) → Prop) : Json → Prop
  | .object entries => p entries ∧ EverywhereInEntries p entries
  | .array items => EverywhereInItems p items
  | .null | .bool _ | .int _ | .double _ | .string _ => True

def EverywhereInEntries (p : List (String × Json) → Prop) : List (String × Json) → Prop
  | [] => True
  | (_, value) :: entries => Everywhere p value ∧ EverywhereInEntries p entries

def EverywhereInItems (p : List (String × Json) → Prop) : List Json → Prop
  | [] => True
  | item :: items => Everywhere p item ∧ EverywhereInItems p items
end

/-- No key occurs twice in an object. -/
def HasUniqueKeys : Json → Prop := Everywhere fun entries => (entries.map Prod.fst).Nodup

/-- No key has a dot or a bracket. -/
def HasPlainKeys : Json → Prop := Everywhere fun entries => ∀ entry ∈ entries,
  ∀ c ∈ entry.1.toList, c ≠ '.' ∧ c ≠ '[' ∧ c ≠ ']'

end Json

namespace FilterDocument

/-! ### Texts of places -/

/-- The characters of a step. -/
def stepChars : Step → List Char
  | .key name => '.' :: name.toList
  | .item index => '[' :: Number.digits index ++ [']']

/-- The text of a place. -/
def placeOf (steps : Position) : String :=
  Param.search ++ String.ofList (steps.flatMap stepChars)

/-- Read one more character of a place, from its end: the characters since the last step, and the
steps after them. -/
def readChar (c : Char) : List Char × Position → List Char × Position
  | (seen, steps) =>
    if c = '.' then ([], .key (String.ofList seen) :: steps)
    else if c = '[' then ([], .item (Number.ofDigits seen.dropLast) :: steps)
    else (c :: seen, steps)

/-- The steps that the text of a place names; none for a text that does not begin with the name of
the parameter. -/
def readPlace (place : String) : Option Position :=
  let (seen, steps) := place.toList.foldr readChar ([], [])
  if seen = Param.search.toList then some steps else none

/-! ### Leaves and refusals -/

mutual
/-- The places of the leaves in what stands under a word: of the entries that are under no word
themselves. -/
def leafPositions : Json → List Position
  | .object entries => entryPositions entries
  | .array items => itemPositions 0 items
  | .null | .bool _ | .int _ | .double _ | .string _ => []

def entryPositions : List (String × Json) → List Position
  | [] => []
  | (key, value) :: entries =>
    (if (Connective.ofKey? key).isSome then leafPositions value else [[]]).map (.key key :: ·) ++
      entryPositions entries

def itemPositions (index : Nat) : List Json → List Position
  | [] => []
  | item :: items =>
    (leafPositions item).map (.item index :: ·) ++ itemPositions (index + 1) items
end

/-- The parameter of a leaf leads to the entry that it was parsed from. -/
def IsParsedFrom (resource : Resource) (root : Json) (steps : Position) (leaf : Filter) : Prop :=
  ∃ place before key value, leaf.param? = some place ∧ readPlace place = some steps ∧
    steps = before ++ [.key key] ∧ root.follow? steps = some value ∧
    readLeaf resource place key value = .ok leaf

/-- How many words lead to a place. -/
def wordCount (steps : Position) : Nat :=
  steps.countP fun
    | .key _ => true
    | .item _ => false

/-- A document is refused for what stands at a place. -/
inductive IsRefusedAt (resource : Resource) (root : Json) : Position → QueryError → Prop
  /-- An entry that is under no word is not the comparison or the full-text match of its key. -/
  | leaf {before : Position} {key : String} {value : Json} {e : QueryError} :
    root.follow? (before ++ [.key key]) = some value →
    readLeaf resource (placeOf (before ++ [.key key])) key value = .error e →
    IsRefusedAt resource root (before ++ [.key key]) e
  /-- An object is below too many words. -/
  | object {steps : Position} {entries : List (String × Json)} :
    root.follow? steps = some (.object entries) → maxFilterDepth < wordCount steps →
    IsRefusedAt resource root steps (.malformedFilter (placeOf steps) .tooDeep)
  /-- Under a word is neither an object nor a list. -/
  | operand {before : Position} {key : String} {value : Json} :
    (Connective.ofKey? key).isSome → root.follow? (before ++ [.key key]) = some value →
    value.isContainer = false →
    IsRefusedAt resource root (before ++ [.key key])
      (.malformedFilter (placeOf (before ++ [.key key])) .notObjectOrList)
  /-- An item of a list is no object. -/
  | item {before : Position} {index : Nat} {value : Json} :
    root.follow? (before ++ [.item index]) = some value → (∀ entries, value ≠ .object entries) →
    IsRefusedAt resource root (before ++ [.item index])
      (.malformedFilter (placeOf (before ++ [.item index])) .itemNotObject)
  /-- The document is no object. -/
  | document : (∀ entries, root ≠ .object entries) →
    IsRefusedAt resource root [] (.malformedFilter (placeOf []) .notObject)

/-- An error that a leaf of a filter is refused with, once it is parsed: when it is validated, or
when a store compiles it. -/
inductive RaisedFor (leaf : Filter) (e : QueryError) : Prop
  | validation (registry : Registry) (resource : Resource) :
    leaf.validateLeaf registry resource = .error e → RaisedFor leaf e
  | relational (t : Sql.Target) (stem : String) : t.condition stem leaf = .error e →
    RaisedFor leaf e
  | document (t : Document.Target) (stem : String) : t.condition stem leaf = .error e →
    RaisedFor leaf e
  | searchIndex (t : SearchIndex.Target) : t.condition leaf = .error e → RaisedFor leaf e

/-- Leaves name the entries of a document: each was parsed from the entry that its parameter leads
to, no two have one parameter, and whatever error is raised for a leaf later on, no other leaf has
the parameter that it names. -/
structure NameEntries (resource : Resource) (root : Json) (leaves : List Filter) : Prop where
  parsed : List.Forall₂ (IsParsedFrom resource root) (leafPositions root) leaves
  distinct : (leaves.map Filter.param?).Nodup
  raised : ∀ leaf ∈ leaves, ∀ e, RaisedFor leaf e →
    ∀ other ∈ leaves, other.param? = some e.param ↔ other = leaf

end FilterDocument
end Listing

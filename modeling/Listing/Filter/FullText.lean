/-
# Full-text matches

A full-text parameter asks for rows in which the words of a phrase occur. What it leaves open, the
attributes and the mode, comes from the resource.
-/
import Listing.Key
import Listing.Resource.Basic
import Listing.Text.Truncate

namespace Listing

/-- A search for the words of a phrase in attributes of the listed resource. -/
structure FullText where
  param : String
  phrase : String
  attributes : List String
  /-- Every word must occur, and not just one. -/
  requireAll : Bool
  deriving DecidableEq, Repr

namespace FullText

/-- The words of the phrase. -/
def words (f : FullText) : List String := Text.words f.phrase

/-- The length of the longest phrase, in bytes. -/
def maxLength : Nat := 10000

/-- The phrase that an operand gives: a text, or texts that are joined by spaces. -/
def phrase? : Json → Except ParameterFault String
  | .string s => .ok s
  | .array items => match items.mapM Json.asString? with
    | some texts => .ok (" ".intercalate texts)
    | none => .error .fullTextTerms
  | _ => .error .fullTextNotText

/-- The search that a full-text key and its operand ask for. -/
def ofKey (param : String) (key : FullTextKey) (value : Json) (resource : Resource) :
    Result FullText :=
  match phrase? value with
  | .error fault => .error (.malformedParameter param fault)
  | .ok text =>
    let phrase := Text.truncate maxLength (Text.trim text)
    if phrase.isEmpty then .error (.malformedParameter param .fullTextEmpty)
    else .ok {
      param
      phrase
      attributes := if key.attributes.isEmpty then resource.fullText else key.attributes
      requireAll := key.requireAll.getD resource.fullTextRequireAll }

end FullText
end Listing

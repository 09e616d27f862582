/-
# Configuration

Resources and options as JSON. Reading is strict in types and lenient in keys: a value of the wrong
type is refused, an unknown key is ignored, and a missing key has its default if there is one. A
record may also be an array of its fields in their order, with those left out at the end missing.
-/
import Listing.Json.Basic
import Listing.Options
import Listing.Resource.Basic

namespace Listing.Config

/-- The values of the named fields of a record, each one if it is there. -/
def fields? (names : List String) : Json → Option (List (Option Json))
  | .object entries => some (names.map fun name => entries.lookup name)
  | .array items =>
    if items.length ≤ names.length then
      some (items.map some ++ List.replicate (names.length - items.length) none)
    else none
  | _ => none

/-- A field that may be left out. -/
def orElse {α : Type} (default : α) (read : Json → Option α) : Option Json → Option α
  | none => some default
  | some value => read value

/-- A value or null. -/
def nullable? {α : Type} (read : Json → Option α) : Json → Option (Option α)
  | .null => some none
  | value => (read value).map some

/-- A list of values. -/
def list? {α : Type} (read : Json → Option α) : Json → Option (List α)
  | .array items => items.mapM read
  | _ => none

def text? : Json → Option String := Json.asString?

def flag? : Json → Option Bool
  | .bool b => some b
  | _ => none

def natural? : Json → Option Nat := Json.asUnsigned?

/-- A text of one character. -/
def char? : Json → Option Char
  | .string s => match s.toList with
    | [c] => some c
    | _ => none
  | _ => none

/-- The name of a kind, or an object whose only key is that name with the value null. -/
def kind? : Json → Option Kind
  | .string s => Kind.ofName? s
  | .object [(name, .null)] => Kind.ofName? name
  | _ => none

/-- Read the options. -/
def options? (value : Json) : Option Options := do
  let fields ← fields?
    ["multivalue_separator", "default_limit", "max_limit", "fulltext_language", "eager_limit"] value
  match fields with
  | [separator, defaultLimit, maxLimit, language, eagerLimit] =>
    return {
      separator := ← orElse ',' char? separator
      defaultLimit := ← orElse none (nullable? natural?) defaultLimit
      maxLimit := ← orElse none (nullable? natural?) maxLimit
      language := ← orElse "english" text? language
      eagerLimit := ← orElse none (nullable? natural?) eagerLimit }
  | _ => none

/-- Read an attribute. -/
def attribute? (value : Json) : Option Attribute := do
  match ← fields? ["name", "kind", "column", "keyword_field", "element_kind"] value with
  | [some name, some kind, column, keywordField, elementKind] =>
    return {
      name := ← text? name
      kind := ← kind? kind
      column := ← orElse none (nullable? text?) column
      keywordField := ← orElse none (nullable? text?) keywordField
      elementKind := ← orElse .scalar kind? elementKind }
  | _ => none

/-- Read a relation. -/
def relation? (value : Json) : Option Relation := do
  match ← fields? ["name", "target", "local_key", "foreign_key", "many", "embedded"] value with
  | [some name, some target, localKey, foreignKey, many, embedded] =>
    return {
      name := ← text? name
      target := ← text? target
      localKey := ← orElse "" text? localKey
      foreignKey := ← orElse "" text? foreignKey
      many := ← orElse false flag? many
      embedded := ← orElse false flag? embedded }
  | _ => none

/-- Read a resource. -/
def resource? (value : Json) : Option Resource := do
  let fields ← fields? ["name", "storage", "primary_key", "attributes", "relations", "fulltext",
    "fulltext_require_all", "default_limit", "max_limit"] value
  match fields with
  | [some name, some storage, primaryKey, attributes, relations, fullText, requireAll,
      defaultLimit, maxLimit] =>
    return {
      name := ← text? name
      storage := ← text? storage
      primaryKey := ← orElse ["id"] (list? text?) primaryKey
      attributes := ← orElse [] (list? attribute?) attributes
      relations := ← orElse [] (list? relation?) relations
      fullText := ← orElse [] (list? text?) fullText
      fullTextRequireAll := ← orElse false flag? requireAll
      defaultLimit := ← orElse none (nullable? natural?) defaultLimit
      maxLimit := ← orElse none (nullable? natural?) maxLimit }
  | _ => none

/-- Write an optional number. -/
def natOrNull : Option Nat → Json := Json.orNull fun n => .int n

/-- Write the options. -/
def ofOptions (o : Options) : Json :=
  .object [
    ("multivalue_separator", .string (String.singleton o.separator)),
    ("default_limit", natOrNull o.defaultLimit),
    ("max_limit", natOrNull o.maxLimit),
    ("fulltext_language", .string o.language),
    ("eager_limit", natOrNull o.eagerLimit)]

/-- Write an attribute. -/
def ofAttribute (a : Attribute) : Json :=
  .object [
    ("name", .string a.name),
    ("kind", .string a.kind.name),
    ("column", Json.orNull .string a.column),
    ("keyword_field", Json.orNull .string a.keywordField),
    ("element_kind", .string a.elementKind.name)]

/-- Write a relation. -/
def ofRelation (r : Relation) : Json :=
  .object [
    ("name", .string r.name),
    ("target", .string r.target),
    ("local_key", .string r.localKey),
    ("foreign_key", .string r.foreignKey),
    ("many", .bool r.many),
    ("embedded", .bool r.embedded)]

/-- Write a resource with all of its fields. -/
def ofResource (r : Resource) : Json :=
  .object [
    ("name", .string r.name),
    ("storage", .string r.storage),
    ("primary_key", Json.strings r.primaryKey),
    ("attributes", .array (r.attributes.map ofAttribute)),
    ("relations", .array (r.relations.map ofRelation)),
    ("fulltext", Json.strings r.fullText),
    ("fulltext_require_all", .bool r.fullTextRequireAll),
    ("default_limit", natOrNull r.defaultLimit),
    ("max_limit", natOrNull r.maxLimit)]

end Listing.Config

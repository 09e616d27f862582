/-
# Registries

A registry holds the resources of a service, each with the store that answers for it. It is built
once from checked resources: names are distinct and can be addressed by a path, full-text
attributes are texts, every relation leads to a registered resource of the same family of stores.
-/
import Listing.Options
import Listing.Path
import Listing.Resource.Basic
import Listing.Sql.Dialect
import Listing.Text.Upper

namespace Listing

/-- Why resources make no registry. -/
inductive SchemaError
  | duplicateResource (resource : String)
  | duplicateName (resource name : String)
  | invalidName (resource name : String)
  | unknownTarget (resource relation target : String)
  | crossBackendRelation (resource relation : String)
  | invalidFullText (resource attr : String)
  | missingPrimaryKey (resource : String)
  deriving DecidableEq, Repr

namespace SchemaError

/-- The stable name of the kind of an error. -/
def code : SchemaError → String
  | .duplicateResource _ => "duplicate_resource"
  | .duplicateName .. => "duplicate_name"
  | .invalidName .. => "invalid_name"
  | .unknownTarget .. => "unknown_target"
  | .crossBackendRelation .. => "cross_backend_relation"
  | .invalidFullText .. => "invalid_fulltext"
  | .missingPrimaryKey _ => "missing_primary_key"

/-- The message of an error. -/
def message : SchemaError → String
  | .duplicateResource resource => "Resource '" ++ resource ++ "' is registered twice"
  | .duplicateName resource name =>
    "Resource '" ++ resource ++ "' declares '" ++ name ++ "' more than once"
  | .invalidName resource name =>
    "Resource '" ++ resource ++ "' has invalid attribute or relation name '" ++ name ++ "'"
  | .unknownTarget resource relation target =>
    "Relation '" ++ relation ++ "' of '" ++ resource ++ "' targets unregistered resource '" ++
      target ++ "'"
  | .crossBackendRelation resource relation =>
    "Relation '" ++ relation ++ "' of '" ++ resource ++ "' crosses backends"
  | .invalidFullText resource attr =>
    "Full-text attribute '" ++ attr ++ "' of '" ++ resource ++ "' must be a string attribute"
  | .missingPrimaryKey resource => "Resource '" ++ resource ++ "' has no primary key"

end SchemaError

namespace Resource

/-- The names that a path can use at a resource: attributes, then relations. -/
def names (r : Resource) : List String := r.attributes.map (·.name) ++ r.relations.map (·.name)

/-- Whether a name can be one segment of a path. -/
def isSegment (name : String) : Bool := !name.isEmpty && (Path.splitText name).length == 1

/-- Check names against those already seen. -/
def checkNames (resource : String) (seen : List String) : List String → Except SchemaError Unit
  | [] => .ok ()
  | name :: names =>
    if !isSegment name then .error (.invalidName resource name)
    else if seen.contains name then .error (.duplicateName resource name)
    else checkNames resource (name :: seen) names

/-- Whether a name is that of a text attribute. -/
def isText (r : Resource) (name : String) : Bool :=
  match r.attribute? name with
  | some attr => attr.kind == .string
  | none => false

/-- Check a resource by itself. -/
def check (r : Resource) : Except SchemaError Unit := do
  checkNames r.name [] r.names
  match r.fullText.find? fun name => !r.isText name with
  | some name => .error (.invalidFullText r.name name)
  | none => if r.primaryKey.isEmpty then .error (.missingPrimaryKey r.name) else .ok ()

end Resource

/-- The store that answers for a resource, with the functions that requests may call in it. -/
inductive Backend
  | relational (dialect : Sql.Dialect) (functions : List String)
  /-- Functions with the expression operators that they stand for. -/
  | document (functions : List (String × String))
  | searchIndex
  deriving DecidableEq, Repr

/-- The family that a store belongs to. -/
inductive BackendKind
  | relational | document | searchIndex
  deriving DecidableEq, Repr

def BackendKind.name : BackendKind → String
  | .relational => "relational"
  | .document => "document"
  | .searchIndex => "search_index"

namespace Backend

def kind : Backend → BackendKind
  | .relational .. => .relational
  | .document _ => .document
  | .searchIndex => .searchIndex

/-- The functions that every relational store has. -/
def commonFunctions : List String :=
  ["lower", "upper", "length", "trim", "ltrim", "rtrim", "abs", "round"]

/-- The further functions of a dialect. -/
def dialectFunctions : Sql.Dialect → List String
  | .postgres => ["char_length", "starts_with", "floor", "ceil", "md5", "initcap"]
  | .mysql => ["char_length", "floor", "ceil", "md5", "date", "reverse"]
  | .sqlite => ["date", "hex", "instr", "unicode"]

/-- The functions that every document store has, with their operators. -/
def documentFunctions : List (String × String) :=
  [("lower", "$toLower"), ("upper", "$toUpper"), ("length", "$strLenCP"), ("abs", "$abs"),
   ("floor", "$floor"), ("ceil", "$ceil"), ("round", "$round"), ("size", "$size")]

/-- A relational store with further functions. -/
def relationalWith (dialect : Sql.Dialect) (functions : List String) : Backend :=
  .relational dialect
    (commonFunctions ++ dialectFunctions dialect ++ functions.map Text.lowerAscii)

/-- A document store with further functions; the last operator given to a name is its own. -/
def documentWith (functions : List (String × String)) : Backend :=
  .document ((functions.map fun (name, op) => (Text.lowerAscii name, op)).reverse ++
    documentFunctions)

end Backend

/-- A resource and its store. -/
structure Entry where
  resource : Resource
  backend : Backend
  deriving Repr

/-- The resources of a service, in the order in which they were registered. -/
structure Registry where
  entries : List Entry := []
  options : Options := {}
  deriving Repr

namespace Registry

/-- The entry of a resource name. -/
def entry? (r : Registry) (name : String) : Option Entry :=
  r.entries.find? (·.resource.name == name)

/-- The resource with a name. -/
def resource? (r : Registry) (name : String) : Option Resource :=
  r.entry? name |>.map (·.resource)

/-- Check every resource by itself, and that no name is registered twice. -/
def checkEntries (seen : List String) : List Entry → Except SchemaError Unit
  | [] => .ok ()
  | e :: entries => do
    e.resource.check
    if seen.contains e.resource.name then .error (.duplicateResource e.resource.name)
    else checkEntries (e.resource.name :: seen) entries

/-- Check that a relation leads to a registered resource of the same family of stores. -/
def checkRelation (r : Registry) (owner : Entry) (relation : Relation) : Except SchemaError Unit :=
  match r.entry? relation.target with
  | none => .error (.unknownTarget owner.resource.name relation.name relation.target)
  | some target =>
    if target.backend.kind = owner.backend.kind then .ok ()
    else .error (.crossBackendRelation owner.resource.name relation.name)

/-- Check every relation. -/
def checkRelations (r : Registry) : Except SchemaError Unit :=
  r.entries.forM fun owner => owner.resource.relations.forM (r.checkRelation owner)

/-- The registry of the given resources, if they pass all checks. -/
def build (options : Options) (entries : List Entry) : Except SchemaError Registry := do
  checkEntries [] entries
  let registry : Registry := { entries, options }
  registry.checkRelations
  return registry

end Registry
end Listing

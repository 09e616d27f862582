/-
# Resources

A resource is what a request lists: its attributes, its relations to other resources, and the
settings of its searches and pages. Names of attributes and relations are those of requests; a
column is the name in storage.
-/
import Listing.Resource.Kind

namespace Listing

/-- An attribute that requests can filter and sort by. -/
structure Attribute where
  name : String
  kind : Kind
  /-- The name in storage, where it differs. -/
  column : Option String := none
  /-- The part of a search index that holds the value in one piece. -/
  keywordField : Option String := none
  /-- The kind of the elements of a collection. -/
  elementKind : Kind := .scalar
  deriving DecidableEq, Repr, Inhabited

/-- The name of an attribute in storage. -/
def Attribute.columnName (a : Attribute) : String := a.column.getD a.name

/-- A named link from one resource to another. A reference pairs a key of the owner with a key of
the target; an embedded relation is stored inside of the owner and has no keys. -/
structure Relation where
  name : String
  /-- The name of the resource at the other end. -/
  target : String
  localKey : String := ""
  foreignKey : String := ""
  /-- One owner has many targets. -/
  many : Bool := false
  embedded : Bool := false
  deriving DecidableEq, Repr, Inhabited

structure Resource where
  name : String
  /-- The table, collection or index. -/
  storage : String
  /-- The columns that identify a row, and order a page that names no order. -/
  primaryKey : List String := ["id"]
  attributes : List Attribute := []
  relations : List Relation := []
  /-- The attributes searched by a bare full-text parameter. -/
  fullText : List String := []
  /-- Whether such a search asks for every word. -/
  fullTextRequireAll : Bool := false
  defaultLimit : Option Nat := none
  maxLimit : Option Nat := none
  deriving DecidableEq, Repr, Inhabited

namespace Resource

/-- The attribute with a name. -/
def attribute? (r : Resource) (name : String) : Option Attribute :=
  r.attributes.find? (·.name == name)

/-- The relation with a name. -/
def relation? (r : Resource) (name : String) : Option Relation :=
  r.relations.find? (·.name == name)

def withAttribute (r : Resource) (a : Attribute) : Resource :=
  { r with attributes := r.attributes ++ [a] }

def withRelation (r : Resource) (rel : Relation) : Resource :=
  { r with relations := r.relations ++ [rel] }

def withPrimaryKey (r : Resource) (columns : List String) : Resource :=
  { r with primaryKey := columns }

def withFullText (r : Resource) (attributes : List String) (requireAll : Bool) : Resource :=
  { r with fullText := attributes, fullTextRequireAll := requireAll }

def withLimits (r : Resource) (defaultLimit maxLimit : Option Nat) : Resource :=
  { r with defaultLimit, maxLimit }

end Resource

namespace Relation

/-- A reference to at most one target. -/
def toOne (name target localKey foreignKey : String) : Relation :=
  { name, target, localKey, foreignKey }

/-- A reference to many targets. -/
def toMany (name target localKey foreignKey : String) : Relation :=
  { name, target, localKey, foreignKey, many := true }

/-- A relation stored inside of the owner. -/
def within (name target : String) (many : Bool) : Relation :=
  { name, target, many, embedded := true }

end Relation
end Listing

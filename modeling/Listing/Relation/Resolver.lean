/-
# Resolvers

A resolver collects the joins of a query while its paths are resolved, one after the other. Every
relation that a path walks is registered once: a cache says where the plan for the names walked so
far is, and without one a plan is added at the end, next to the plan that it extends. A path that
fails leaves the plans for the relations before the one that is missing.
-/
import Listing.Relation.Route

namespace Listing

/-- One relation that paths walk. -/
structure Plan where
  /-- The names from the listed resource on, that of the relation included. -/
  path : List String
  /-- The alias of the rows that are reached. -/
  aliasName : String
  /-- The position of the plan that this one extends; none for a relation of the listed resource. -/
  parent : Option Nat
  hop : Hop
  deriving DecidableEq, Repr

/-- What a call finds: the resource at the end of the path, the attribute of it that is asked for,
and the position of the plan for the last relation. -/
structure Reached where
  attr : Option Attribute
  owner : Resource
  join : Option Nat
  deriving DecidableEq, Repr

/-- A chain of relations to resolve, or a path to an attribute. -/
inductive ResolverCall
  | relations (param : String) (names : List String)
  | attr (param : String) (path : Path)
  deriving DecidableEq, Repr

/-- The plans of a query, with the listed resource and what every alias begins with. -/
structure Resolver where
  start : Resource
  stem : String
  plans : List Plan := []
  /-- The positions of plans, under their paths. -/
  cache : List (List String × Nat) := []
  deriving Repr

namespace Resolver

/-- Add a plan at the end, and remember where it is. -/
def add (r : Resolver) (plan : Plan) : Resolver :=
  { r with plans := r.plans ++ [plan], cache := (plan.path, r.plans.length) :: r.cache }

/-- The position of the plan for a path; a plan is added where there is none. -/
def register (r : Resolver) (path : List String) (parent : Option Nat) (hop : Hop) :
    Resolver × Nat :=
  match r.cache.lookup path with
  | some position => (r, position)
  | none =>
    (r.add { path, aliasName := r.stem ++ Path.joinText path, parent, hop }, r.plans.length)

/-- Walk relations by name from a resource, after the names `walked`, of which the plan is at
`parent`. -/
def resolveFrom (registry : Registry) (param : String) (r : Resolver) (walked : List String)
    (parent : Option Nat) (current : Resource) :
    List String → Resolver × Result (Option Nat × Resource)
  | [] => (r, .ok (parent, current))
  | name :: names => match registry.hop? current name with
    | none => (r, .error (.invalidRelationPath param name))
    | some hop =>
      let (r, position) := r.register (walked ++ [name]) parent hop
      resolveFrom registry param r (walked ++ [name]) (some position) hop.target names

/-- Resolve a chain of relations of the listed resource. -/
def resolve (r : Resolver) (registry : Registry) (param : String) (names : List String) :
    Resolver × Result (Option Nat × Resource) :=
  resolveFrom registry param r [] none r.start names

/-- Resolve a chain of relations or a path. -/
def call (r : Resolver) (registry : Registry) : ResolverCall → Resolver × Result Reached
  | .relations param names => match r.resolve registry param names with
    | (r, .error e) => (r, .error e)
    | (r, .ok (join, owner)) => (r, .ok { attr := none, owner, join })
  | .attr param path => match r.resolve registry param path.relations with
    | (r, .error e) => (r, .error e)
    | (r, .ok (join, owner)) => match owner.attribute? path.attr with
      | some attr => (r, .ok { attr := some attr, owner, join })
      | none => (r, .error (.unknownAttribute param path.attr))

/-- The resolver after several calls. -/
def after (r : Resolver) (registry : Registry) (calls : List ResolverCall) : Resolver :=
  calls.foldl (fun r c => (r.call registry c).1) r

/-- Whether one row at the start can reach several at the end of a plan. A plan comes after the one
that it extends. -/
def isToMany (r : Resolver) (position : Nat) : Bool :=
  match r.plans[position]? with
  | none => false
  | some plan => plan.hop.relation.many || match plan.parent with
    | some parent => if parent < position then r.isToMany parent else false
    | none => false
termination_by position

/-- Whether some plan reaches several rows from one. -/
def hasToMany (r : Resolver) : Bool := r.plans.any (·.hop.relation.many)

end Resolver
end Listing

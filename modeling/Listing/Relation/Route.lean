/-
# Routes

A route is the chain of relations that a path walks from a resource. A name that is no relation
ends it. The joins of a query are the distinct routes that its paths walk, each with all of its
beginnings: a table collects them in the order in which they are first walked, so that a route
always comes after the route it extends.
-/
import Listing.Error
import Listing.Filter.Basic
import Listing.Params
import Listing.Registry
import Listing.Request.Fetch

namespace Listing

/-- One relation walked, and the resource it leads to. -/
structure Hop where
  relation : Relation
  target : Resource
  deriving DecidableEq, Repr, Inhabited

/-- The relations walked, in order. -/
abbrev Route := List Hop

namespace Route

/-- The names of the relations walked. -/
def names (route : Route) : List String := route.map (·.relation.name)

/-- The resource that a route leads to. -/
def destination (start : Resource) (route : Route) : Resource :=
  (route.getLast?.map (·.target)).getD start

/-- Whether one row at the start can reach several at the end. -/
def isToMany (route : Route) : Bool := route.any (·.relation.many)

/-- The alias of the rows that a route reaches. -/
def aliasName (stem : String) (route : Route) : String := stem ++ Path.joinText route.names

/-- The beginnings of a route, shortest first, the route itself included and the empty one not. -/
def beginnings (route : Route) : List Route :=
  (List.range route.length).map fun i => route.take (i + 1)

end Route

/-- The relation with a name at a resource, and the resource that it leads to. -/
def Registry.hop? (registry : Registry) (start : Resource) (name : String) : Option Hop := do
  let relation ← start.relation? name
  let target ← registry.resource? relation.target
  return ⟨relation, target⟩

/-- Walk relations by name as far as they go: the route, and the first name that is no relation. -/
def Registry.walk (registry : Registry) (start : Resource) : List String → Route × Option String
  | [] => ([], none)
  | name :: names => match registry.hop? start name with
    | none => ([], some name)
    | some hop =>
      let (route, bad) := registry.walk hop.target names
      (hop :: route, bad)

/-- The route that names walk. -/
def Registry.route (registry : Registry) (start : Resource) (param : String)
    (names : List String) : Result Route :=
  match registry.walk start names with
  | (route, none) => .ok route
  | (_, some bad) => .error (.invalidRelationPath param bad)

/-- An attribute together with the route to it. -/
structure Located where
  attr : Attribute
  owner : Resource
  route : Route
  deriving Repr

/-- Find the attribute at the end of a path. -/
def Registry.locate (registry : Registry) (start : Resource) (param : String) (path : Path) :
    Result Located := do
  let route ← registry.route start param path.relations
  let owner := route.destination start
  match owner.attribute? path.attr with
  | some attr => return { attr, owner, route }
  | none => .error (.unknownAttribute param path.attr)

/-- The relations of a resource that a request wants loaded. -/
def Resource.fetched (resource : Resource) : Fetch → Result (List Relation)
  | .none => .ok []
  | .all => .ok resource.relations
  | .named names => names.mapM fun name => match resource.relation? name with
    | some relation => .ok relation
    | none => .error (.invalidRelationPath Param.relations name)

/-- The distinct routes walked from a resource. -/
structure Joins where
  start : Resource
  /-- What the alias of every route begins with. -/
  stem : String
  routes : List Route := []
  deriving Repr

namespace Joins

/-- What aliases begin with unless a query asks for something else. -/
def defaultStem : String := "rel_"

/-- The routes of a list are told apart by the names they walk. -/
def indexOf? (routes : List Route) (route : Route) : Option Nat :=
  routes.findIdx? fun other => other.names == route.names

/-- Add one route, unless it is there. -/
def addOne (routes : List Route) (route : Route) : List Route :=
  match indexOf? routes route with
  | some _ => routes
  | none => routes ++ [route]

/-- Add a route and all of its beginnings. -/
def add (joins : Joins) (route : Route) : Joins :=
  { joins with routes := route.beginnings.foldl addOne joins.routes }

/-- The position of a route; the empty route has none. -/
def position? (joins : Joins) (route : Route) : Option Nat :=
  if route.isEmpty then none else indexOf? joins.routes route

/-- The position of the route that a route extends. -/
def parent? (joins : Joins) (route : Route) : Option Nat := joins.position? route.dropLast

/-- Walk relations and add the route, as far as it goes. -/
def resolve (joins : Joins) (registry : Registry) (param : String) (names : List String) :
    Joins × Result (Option Nat × Resource) :=
  let (route, bad) := registry.walk joins.start names
  let joins := joins.add route
  match bad with
  | none => (joins, .ok (joins.position? route, route.destination joins.start))
  | some name => (joins, .error (.invalidRelationPath param name))

/-- Find the attribute at the end of a path, and add the route to it. -/
def resolveAttribute (joins : Joins) (registry : Registry) (param : String) (path : Path) :
    Joins × Result (Attribute × Resource × Option Nat) :=
  match joins.resolve registry param path.relations with
  | (joins, .error e) => (joins, .error e)
  | (joins, .ok (position, owner)) => match owner.attribute? path.attr with
    | some attr => (joins, .ok (attr, owner, position))
    | none => (joins, .error (.unknownAttribute param path.attr))

/-- Whether some route of the table reaches several rows from one. -/
def hasToMany (joins : Joins) : Bool := joins.routes.any Route.isToMany

/-- The joins of the paths of a query: the routes that they walk, in order. -/
def addPaths (joins : Joins) (registry : Registry) (paths : List Path) : Joins :=
  paths.foldl (fun joins path => joins.add (registry.walk joins.start path.relations).1) joins

end Joins

/-- The paths of the comparisons of a filter, from left to right. -/
def Filter.paths (filter : Filter) : List Path :=
  filter.leaves.filterMap fun
    | .comparison c => some c.path
    | _ => none

end Listing

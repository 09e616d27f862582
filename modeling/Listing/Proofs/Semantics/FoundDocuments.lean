/-
# The documents that a filter finds

A filter is read on a document of the listed collection together with what its relations lead to.
Every reference on a path of the request is followed once. It leads from the document where the
last reference before it ended, or else from the listed document, to all documents whose foreign key
is among its local keys. They are put under the alias of the route: a relation to one puts the first
of them there by itself, and every other relation puts the list of all of them.

The filter finds the document if the store keeps it with all of this. Every document of the
collection is found or not, so none is found twice. Nothing is said here of stages.
-/
import Listing.Document.Query
import Listing.Proofs.RouteOrder
import Listing.Proofs.Semantics.Pipelines
import Mathlib.Data.List.DropRight

namespace Listing

/-- A reference to at most one document. -/
def Relation.refersToOne (relation : Relation) : Bool := !relation.embedded && !relation.many

namespace Route

/-- Whether the last relation of a route is a reference. -/
def isReference (route : Route) : Bool := route.getLast?.any (!·.relation.embedded)

/-- The beginning of a route that ends with the last reference before its last relation. -/
def anchor (route : Route) : Route := route.dropLast.rdropWhile (·.relation.embedded)

/-- The path to a field at the last relation of a route, from the document where its anchor ends:
below the embedded relations in between. -/
def within (route : Route) (field : String) : String :=
  (route.dropLast.rtakeWhile (·.relation.embedded)).foldr (·.relation.name ++ "." ++ ·) field

/-- The field under which the documents at the end of a route are put. -/
def label (route : Route) : String := route.aliasName Joins.defaultStem

end Route

/-- The paths of the filter and the order of a request. -/
def Request.pagePaths (request : Request) : List Path :=
  (request.filter.map Filter.paths).getD [] ++ request.order.map (·.path)

/-- The part of a list that a page shows. -/
def Paging.cut {α : Type} (paging : Paging) (xs : List α) : List α :=
  let rest := xs.drop paging.offset
  (paging.limit.map rest.take).getD rest

namespace Document

/-- The labels of the references at the ends of routes. -/
def labelsOf (routes : List Route) : List String := (routes.filter Route.isReference).map Route.label

namespace Store

variable (store : Store)

/-- A document with what a relation leads to from some keys. -/
def attach (hop : Hop) (label : String) (keys : List Json) (d : Doc) : Doc :=
  let found := store.related hop.target.storage hop.relation.foreignKey keys
  if hop.relation.many then insertEntry label (.array (found.map .object)) d
  else match found with
    | [] => without [label] d
    | r :: _ => insertEntry label (.object r) d

/-- The local keys of the last relation of a route, in a document with what the routes before it
lead to. -/
def localKeys (route : Route) (hop : Hop) (d : Doc) : List Json :=
  let path := route.within hop.relation.localKey
  if route.anchor = [] then keysAt path d
  else valuesAt (pathNames path) ((d.lookup route.anchor.label).getD .null)

/-- A document with what the last relation of a route leads to. -/
def follow (route : Route) (d : Doc) : Doc :=
  match route.getLast? with
  | none => d
  | some hop =>
    if hop.relation.embedded then d
    else store.attach hop route.label (localKeys route hop d) d

/-- A document with what routes lead to, followed one after the other. -/
def followAll (routes : List Route) (d : Doc) : Doc :=
  routes.foldl (fun d route => store.follow route d) d

/-- A document with what relations of its own lead to, under their names. -/
def load (hops : List Hop) (d : Doc) : Doc :=
  hops.foldl (fun d hop =>
    store.attach hop hop.relation.name (keysAt hop.relation.localKey d) d) d

/-- A relation leads from every document of a collection to at most one: no two documents at its end
have the same foreign key, and no document of the collection has two local keys. -/
structure LeadsToOne (collection path : String) (hop : Hop) : Prop where
  unique : store.IsUnique hop.target.storage hop.relation.foreignKey
  single : ∀ d ∈ store.documents collection, (keysAt path d).length ≤ 1

end Store

namespace Target

variable (t : Target) (store : Store) (request : Request)

/-- The routes that filter and order of a request use. -/
def routesUsed : List Route := t.registry.routesUsed t.resource request.pagePaths

/-- The references that a request wants loaded. -/
def loaded : List Hop :=
  match t.resource.fetched request.fetch with
  | .ok relations => (relations.filter (! ·.embedded)).filterMap fun relation =>
    (t.registry.resource? relation.target).map (⟨relation, ·⟩)
  | .error _ => []

/-- A document with all that the paths of a request lead to. -/
def withRelated (d : Doc) : Doc := store.followAll (t.routesUsed request) d

/-- Whether the filter of a request finds a document. -/
def finds (d : Doc) : Bool :=
  match request.filter.mapM (t.condition Joins.defaultStem) with
  | .ok condition => condition.all (store.passes · (t.withRelated store request d))
  | .error _ => false

/-- The documents of the listed collection that the filter of a request finds. -/
def foundDocuments : List Doc :=
  (store.documents t.resource.storage).filter (t.finds store request)

/-- A document as it stands on a page: with the relations that the request wants loaded, and without
those that it was only filtered or ordered by. -/
def shown (d : Doc) : Doc :=
  store.load (t.loaded request)
    (without (labelsOf (t.routesUsed request)) (t.withRelated store request d))

/-- Every relation to one that a request follows or loads leads to at most one document. -/
structure HasKeys : Prop where
  used : ∀ route ∈ t.routesUsed request, ∀ hop ∈ route.getLast?, hop.relation.refersToOne = true →
    store.LeadsToOne (route.anchor.destination t.resource).storage
      (route.within hop.relation.localKey) hop
  loaded : ∀ hop ∈ t.loaded request, hop.relation.many = false →
    store.LeadsToOne t.resource.storage hop.relation.localKey hop

/-- The fields that a request adds to a document are different, and none of them takes the place of
a local key of the document that a relation to one still needs. -/
structure NamesApart : Prop where
  distinct : (labelsOf (t.routesUsed request)).Nodup
  plain : ∀ label ∈ labelsOf (t.routesUsed request) ++ (t.loaded request).map (·.relation.name),
    '.' ∉ label.toList
  used : ∀ route ∈ t.routesUsed request, ∀ hop ∈ route.getLast?, hop.relation.refersToOne = true →
    route.anchor = [] →
    firstName (route.within hop.relation.localKey) ∉ labelsOf (t.routesUsed request)
  loaded : ∀ hop ∈ t.loaded request, hop.relation.many = false →
    firstName hop.relation.localKey ∉ labelsOf (t.routesUsed request)
  inOrder : (t.loaded request).Pairwise fun before hop => hop.relation.many = false →
    firstName hop.relation.localKey ≠ before.relation.name

/-- No reference to one that filter and order use is behind a relation to many. -/
def OneBeforeMany : Prop :=
  ∀ route ∈ t.routesUsed request, ∀ hop ∈ route.getLast?, hop.relation.refersToOne = true →
    route.isToMany = false

instance : Decidable (t.OneBeforeMany request) :=
  inferInstanceAs (Decidable (∀ route ∈ t.routesUsed request, ∀ hop ∈ route.getLast?,
    hop.relation.refersToOne = true → route.isToMany = false))

end Target
end Document
end Listing

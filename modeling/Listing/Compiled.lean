/-
# Compiled requests

From the parameters of a request to the query of the store that answers for the resource: the
parameters are read, the request is validated, and the query is compiled.
-/
import Listing.Document.Query
import Listing.SearchIndex.Query
import Listing.Sql.Query
import Listing.Validation

namespace Listing

/-- The query of one of the stores. -/
inductive Compiled
  | relational (q : Sql.Query)
  | document (q : Document.Query)
  | searchIndex (q : SearchIndex.Query)
  deriving Repr

/-- The query for a request, which is taken to be valid. -/
def Backend.compile (backend : Backend) (registry : Registry) (resource : Resource)
    (request : Request) : Result Compiled :=
  match backend with
  | .relational dialect functions =>
    let target : Sql.Target := { dialect, functions, registry, resource }
    (target.compile request).map .relational
  | .document functions =>
    let target : Document.Target := { functions, registry, resource }
    (target.compile request).map .document
  | .searchIndex =>
    let target : SearchIndex.Target := { registry, resource }
    (target.compile request).map .searchIndex

namespace Entry

/-- The request that parameters make. -/
def read (e : Entry) (registry : Registry) (params : Params) : Result Request :=
  Request.ofParams params e.resource registry.options

/-- Validate a request and compile it. -/
def compileRequest (e : Entry) (registry : Registry) (request : Request) : Result Compiled := do
  request.validate registry e.resource
  e.backend.compile registry e.resource request

/-- Read, validate and compile a request. -/
def compile (e : Entry) (registry : Registry) (params : Params) : Result Compiled := do
  e.compileRequest registry (← e.read registry params)

end Entry
end Listing

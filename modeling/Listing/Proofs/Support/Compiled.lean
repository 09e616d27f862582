/-
# When a valid request is refused

A request that was read and is valid either compiles or is refused because the store of its
resource lacks something. There is no other error: paths, operands and bounds cannot fail again
after validation. What each store lacks is listed for it in its own module; this one puts the three
together for every resource of a built registry.
-/
import Listing.Compiled
import Listing.Proofs.Support.Document
import Listing.Proofs.Support.SearchIndex
import Listing.Proofs.Support.Sql

namespace Listing

/-- What the store of a resource lacks for a request. -/
def Backend.Lacks (backend : Backend) (registry : Registry) (resource : Resource)
    (request : Request) : Prop :=
  match backend with
  | .relational dialect functions =>
    Sql.Target.Lacks { dialect, functions, registry, resource } request
  | .document functions => Document.Target.Lacks { functions, registry, resource } request
  | .searchIndex => SearchIndex.Target.Lacks { registry, resource } request

/-- The query of a ready request is refused for what the store lacks. -/
theorem Backend.refusedIff_compile (backend : Backend) {registry : Registry}
    {resource : Resource} {request : Request}
    (hready : ∀ c ∈ request.comparisons, c.Ready registry resource)
    (hvalid : request.IsValid registry resource)
    (htargets : ∀ relation ∈ resource.relations,
      ∃ target, registry.resource? relation.target = some target) :
    RefusedIff (backend.compile registry resource request)
      (backend.Lacks registry resource request) := by
  cases backend with
  | relational dialect functions =>
      let t : Sql.Target := { dialect, functions, registry, resource }
      exact (t.refusedIff_compile hready hvalid htargets).map Compiled.relational
  | document functions =>
      let t : Document.Target := { functions, registry, resource }
      exact (t.refusedIff_compile hready hvalid htargets).map Compiled.document
  | searchIndex =>
      let t : SearchIndex.Target := { registry, resource }
      exact (t.refusedIff_compile hready hvalid).map Compiled.searchIndex

namespace Entry

/-- In a built registry, a request that was read and is valid fails only for lack of support, and
exactly for what the store of its resource lacks. -/
theorem compileRequest_refused_iff_lacks {options : Options} {entries : List Entry}
    {registry : Registry} (hbuild : Registry.build options entries = .ok registry)
    {name : String} {e : Entry} (hentry : registry.entry? name = some e)
    {params : Params} {request : Request} (hread : e.read registry params = .ok request)
    (hvalid : request.validate registry e.resource = .ok ()) :
    (∀ error, e.compileRequest registry request = .error error → error.IsUnsupported) ∧
      ((∃ error, e.compileRequest registry request = .error error) ↔
        e.backend.Lacks registry e.resource request) := by
  have hchecked := (Registry.build_eq_ok hbuild).2.2
  have hmem : e ∈ registry.entries := List.mem_of_find?_eq_some hentry
  have hready := Request.ready_of_valid (Request.built_ofParams hread)
    (Request.isValid_of_validate hvalid)
  have hrefused : RefusedIff (e.compileRequest registry request)
      (e.backend.Lacks registry e.resource request) :=
    RefusedIff.bind_ok hvalid (e.backend.refusedIff_compile hready
      (Request.isValid_of_validate hvalid) fun relation hrelation =>
        Registry.resource?_target hchecked hmem hrelation)
  exact ⟨fun error herror => hrefused.isUnsupported herror, hrefused.exists_error_iff⟩

/-- Articles with a list of comments inside of each. -/
def articles (backend : Backend) : Entry where
  resource := {
    name := "article"
    storage := "articles"
    attributes := [{ name := "title", kind := .string }]
    relations := [.within "comments" "comment" true] }
  backend := backend

def comments (backend : Backend) : Entry where
  resource := {
    name := "comment"
    storage := "comments"
    attributes := [{ name := "author", kind := .string }] }
  backend := backend

/-- The registry of articles and comments. -/
def articleRegistry (backend : Backend) : Registry where
  entries := [articles backend, comments backend]

/-- Counting articles by the authors of their comments: the group lies in a list. -/
def byAuthor : Request where
  aggregate := { metrics := [⟨.count, none⟩], groupBy := [⟨["comments"], "author"⟩] }

/-- The title, in small letters, has a key. -/
def lowerHasKey : Comparison where
  param := "title__func__lower__haskey"
  path := ⟨[], "title"⟩
  operator := .function
  function := some ⟨["lower"], some .hasKey⟩
  value := .string "x"

/-- A search that groups by a field in a list is read, is valid, and is refused. -/
theorem compileRequest_refused_byAuthor :
    ∃ error, (articles .searchIndex).compileRequest (articleRegistry .searchIndex) byAuthor =
      .error error ∧ error.IsUnsupported := by
  have hbuild : Registry.build {} [articles .searchIndex, comments .searchIndex] =
      .ok (articleRegistry .searchIndex) := rfl
  have hentry : Registry.entry? (articleRegistry .searchIndex) "article" =
      some (articles .searchIndex) := rfl
  have hread : (articles .searchIndex).read (articleRegistry .searchIndex)
      ⟨[("group_by", "comments__author")]⟩ = .ok byAuthor := rfl
  have hvalid : byAuthor.validate (articleRegistry .searchIndex)
      (articles .searchIndex).resource = .ok () := rfl
  have hrefused := compileRequest_refused_iff_lacks hbuild hentry hread hvalid
  have hlacks : Backend.Lacks .searchIndex (articleRegistry .searchIndex)
      (articles .searchIndex).resource byAuthor :=
    .nestedTotals ⟨["comments"], "author"⟩ (by decide) ⟨_, List.mem_singleton.2 rfl, rfl⟩
  obtain ⟨error, herror⟩ := hrefused.2.2 hlacks
  exact ⟨error, herror, hrefused.1 error herror⟩

/-- Refusals come from more than embedded relations, unknown functions and `contains` after a
chain: a document store refuses a known function followed by `haskey`, and a search index refuses a
group in a list for a request that has no filter at all. -/
theorem compileRequest_refused_beyond_contains :
    (Registry.build {} [articles (.documentWith []), comments (.documentWith [])] =
        .ok (articleRegistry (.documentWith [])) ∧
      (articles (.documentWith [])).read (articleRegistry (.documentWith []))
        ⟨[("title__func__lower__haskey", "x")]⟩ =
        .ok { filter := some (.comparison lowerHasKey) } ∧
      Request.validate { filter := some (.comparison lowerHasKey) }
        (articleRegistry (.documentWith [])) (articles (.documentWith [])).resource = .ok () ∧
      lowerHasKey.functionNames = ["lower"] ∧
      Backend.documentFunctions.lookup "lower" = some "$toLower" ∧
      lowerHasKey.valueOperator.positive ≠ .contains ∧
      (articles (.documentWith [])).compileRequest (articleRegistry (.documentWith []))
        { filter := some (.comparison lowerHasKey) } =
        .error (.unsupportedByBackend lowerHasKey.param "document"
          (.operatorAfterFunction .hasKey))) ∧
    (Registry.build {} [articles .searchIndex, comments .searchIndex] =
        .ok (articleRegistry .searchIndex) ∧
      (articles .searchIndex).read (articleRegistry .searchIndex)
        ⟨[("group_by", "comments__author")]⟩ = .ok byAuthor ∧
      byAuthor.validate (articleRegistry .searchIndex) (articles .searchIndex).resource = .ok () ∧
      byAuthor.filter.isNone = true ∧
      (articles .searchIndex).compileRequest (articleRegistry .searchIndex) byAuthor =
        .error (.unsupportedByBackend "group_by" "search_index"
          (.nestedAggregate ⟨["comments"], "author"⟩))) :=
  ⟨⟨rfl, rfl, rfl, rfl, rfl, by decide, rfl⟩, rfl, rfl, rfl, rfl, rfl⟩

end Entry
end Listing

/-
# Relations that a request selects

A request selects relations of the listed resource, by name or all of them, and the answer should
hold what they lead to. Relational stores load every reference with one statement of its own and
refuse what is embedded; document stores look every reference up under its name, after all other
stages of a page, and return what is embedded with the document.

A search index returns what is embedded as well, but does not look at the relations of a request at
all. A reference that is selected there is neither loaded nor refused.
-/
import Listing.Proofs.PipelineScope
import Listing.Proofs.Support.Compiled

namespace Listing

namespace Sql

/-- Exactly one of the loads is for a relation: it finds the rows of the target by the keys of the
relation. -/
def LoadsOnce (loads : List EagerLoad) (relation : Relation) (target : Resource) : Prop :=
  ∃ strategy, loads.filter (·.relation == relation.name) = [{
    relation := relation.name
    table := target.storage
    localKey := relation.localKey
    foreignKey := relation.foreignKey
    many := relation.many
    strategy }]

namespace Target

variable {t : Target}

/-- What is loaded for a relation, which is a reference. -/
theorem eagerLoad_eq_ok {strategy : EagerStrategy} {relation : Relation} {load : EagerLoad}
    (hload : t.eagerLoad strategy relation = .ok load) :
    relation.embedded = false ∧ ∃ target, t.registry.resource? relation.target = some target ∧
      load = {
        relation := relation.name
        table := target.storage
        localKey := relation.localKey
        foreignKey := relation.foreignKey
        many := relation.many
        strategy } := by
  unfold eagerLoad at hload
  split at hload
  · cases hload
  · rename_i hembedded
    split at hload
    · cases hload
    · rename_i target htarget
      cases hload
      exact ⟨by simpa using hembedded, target, htarget, rfl⟩

/-- The loads of a request are those of the relations that it selects, and no two of them write
under one name. -/
theorem eagerLoads_eq_ok {request : Request} {loads : List EagerLoad}
    (hrelations : (t.resource.relations.map (·.name)).Nodup) (hfetch : request.fetch.IsDistinct)
    (hloads : t.eagerLoads request = .ok loads) :
    (loads.map (·.relation)).Nodup ∧ ∀ load, load ∈ loads ↔
      ∃ relation, request.fetch.Selects t.resource relation ∧
        t.eagerLoad (eagerStrategy t.registry.options request.paging.limit) relation =
          .ok load := by
  obtain ⟨relations, hfetched, hmap⟩ := Result.bind_eq_ok.1 hloads
  have hnames : loads.map (·.relation) = relations.map (·.name) :=
    Result.map_eq_of_mapM_eq_ok (fun relation load hload => by
      obtain ⟨_, target, _, rfl⟩ := eagerLoad_eq_ok hload
      rfl) hmap
  refine ⟨hnames ▸ Resource.nodup_fetched hrelations hfetch hfetched, fun load => ⟨?_, ?_⟩⟩
  · intro hmem
    obtain ⟨relation, hrelation, hload⟩ := Result.mem_of_mapM_eq_ok hmap hmem
    exact ⟨relation, (Resource.mem_of_fetched hfetched relation).1 hrelation, hload⟩
  · rintro ⟨relation, hselects, hload⟩
    obtain ⟨load', hmem, hload'⟩ := Result.mapM_eq_ok_mem hmap
      ((Resource.mem_of_fetched hfetched relation).2 hselects)
    rw [hload, Except.ok.injEq] at hload'
    exact hload' ▸ hmem

/-- Of names that are different, one is found once. -/
theorem filter_relation_eq_singleton {loads : List EagerLoad} {load : EagerLoad}
    (hnodup : (loads.map (·.relation)).Nodup) (hload : load ∈ loads) :
    loads.filter (·.relation == load.relation) = [load] := by
  induction loads with
  | nil => cases hload
  | cons first loads ih =>
      obtain ⟨hfirst, hrest⟩ := List.nodup_cons.1 hnodup
      rcases List.mem_cons.1 hload with rfl | htail
      · have hnone : loads.filter (·.relation == load.relation) = [] :=
          List.filter_eq_nil_iff.2 fun other hother heq =>
            hfirst (List.mem_map.2 ⟨other, hother, beq_iff_eq.1 heq⟩)
        rw [List.filter_cons_of_pos (by simp), hnone]
      · have hne : first.relation ≠ load.relation := fun heq =>
          hfirst (List.mem_map.2 ⟨load, htail, heq.symm⟩)
        rw [List.filter_cons_of_neg (by simpa using hne), ih hrest htail]

/-- Every relation that a compiled request selects is a reference, and is loaded once. -/
theorem loadsOnce_of_compile {request : Request} {query : Query}
    (hrelations : (t.resource.relations.map (·.name)).Nodup) (hfetch : request.fetch.IsDistinct)
    (hcompile : t.compile request = .ok query) {relation : Relation}
    (hselects : request.fetch.Selects t.resource relation) :
    ∃ target, t.registry.resource? relation.target = some target ∧
      LoadsOnce query.eager relation target := by
  obtain ⟨_, _, _, eager, -, -, -, heager, rfl⟩ := compile_eq_ok_iff.1 hcompile
  obtain ⟨relations, hfetched, hmap⟩ := Result.bind_eq_ok.1 heager
  obtain ⟨load, _, hload⟩ := Result.mapM_eq_ok_mem hmap
    ((Resource.mem_of_fetched hfetched relation).2 hselects)
  obtain ⟨hnodup, hmem⟩ := eagerLoads_eq_ok hrelations hfetch heager
  have hsingle := filter_relation_eq_singleton hnodup ((hmem load).2 ⟨relation, hselects, hload⟩)
  obtain ⟨_, target, htarget, rfl⟩ := eagerLoad_eq_ok hload
  exact ⟨target, htarget, _, hsingle⟩

end Target
end Sql

namespace Document

/-- The stages look the documents of a relation up under its name, and all stages after that load
relations of other names. -/
def LoadsUnderName (stages : List Stage) (relation : Relation) (target : Resource) : Prop :=
  ∃ before after, stages = before ++ loadStages ⟨relation, target⟩ ++ after ∧
    ∀ stage ∈ after, ∃ hop, stage ∈ loadStages hop ∧ hop.relation.name ≠ relation.name

namespace Target

variable {t : Target} {request : Request}

/-- A reference that is selected is among the relations that are loaded. -/
theorem mem_loaded {relations : List Relation}
    (hfetched : t.resource.fetched request.fetch = .ok relations) {relation : Relation}
    (hselects : request.fetch.Selects t.resource relation) (hreference : relation.embedded = false)
    {target : Resource} (htarget : t.registry.resource? relation.target = some target) :
    ⟨relation, target⟩ ∈ t.loaded request := by
  have hmem := (Resource.mem_of_fetched hfetched relation).2 hselects
  rw [loaded, hfetched]
  refine List.mem_filterMap.2 ⟨relation, List.mem_filter.2 ⟨hmem, by simp [hreference]⟩, ?_⟩
  rw [htarget]
  rfl

/-- What a page loads, it loads under names of its own. -/
theorem loadsUnderName_of_mem_loaded (hrelations : (t.resource.relations.map (·.name)).Nodup)
    (hfetch : request.fetch.IsDistinct) (before : List Stage) {hop : Hop}
    (hhop : hop ∈ t.loaded request) :
    LoadsUnderName (before ++ (t.loaded request).flatMap loadStages) hop.relation hop.target := by
  have hnodup := nodup_loaded hrelations hfetch
  obtain ⟨earlier, later, hsplit⟩ := List.append_of_mem hhop
  rw [hsplit, List.map_append, List.map_cons, List.nodup_append] at hnodup
  have hothers := (List.nodup_cons.1 hnodup.2.1).1
  refine ⟨before ++ earlier.flatMap loadStages, later.flatMap loadStages, ?_, ?_⟩
  · rw [hsplit, List.flatMap_append, List.flatMap_cons]
    simp only [List.append_assoc]
  · intro stage hstage
    obtain ⟨other, hother, hmem⟩ := List.mem_flatMap.1 hstage
    exact ⟨other, hmem, fun heq => hothers (heq ▸ List.mem_map_of_mem hother)⟩

/-- Every reference that a compiled request selects is looked up under its name. -/
theorem loadsUnderName_of_compile {query : Query}
    (hrelations : (t.resource.relations.map (·.name)).Nodup) (hfetch : request.fetch.IsDistinct)
    (hvalid : request.IsValid t.registry t.resource) (hcompile : t.compile request = .ok query)
    {relation : Relation} (hselects : request.fetch.Selects t.resource relation)
    (hreference : relation.embedded = false) {target : Resource}
    (htarget : t.registry.resource? relation.target = some target) :
    LoadsUnderName query.pipeline relation target := by
  obtain ⟨relations, hfetched⟩ := hvalid.fetched
  obtain ⟨_, _, _, _, _, _, hpipeline, _⟩ := compile_eq_shared hcompile
  rw [hpipeline]
  exact loadsUnderName_of_mem_loaded hrelations hfetch _
    (mem_loaded hfetched hselects hreference htarget)

end Target
end Document

/-- The compiled query returns what a relation leads to with the rows that it lists. -/
def Compiled.AccountsFor (registry : Registry) (relation : Relation) : Compiled → Prop
  | .relational query => ∃ target, registry.resource? relation.target = some target ∧
      Sql.LoadsOnce query.eager relation target
  | .document query => relation.embedded = true ∨
      ∃ target, registry.resource? relation.target = some target ∧
        Document.LoadsUnderName query.pipeline relation target
  | .searchIndex _ => relation.embedded = true

/-- A request stays valid if it selects nothing. -/
theorem Request.validate_selecting_nothing {request : Request} {registry : Registry}
    {resource : Resource} (hvalid : request.validate registry resource = .ok ()) :
    { request with fetch := .none }.validate registry resource = .ok () := by
  obtain ⟨_, hleaves, hrest⟩ := Result.bind_eq_ok.1 hvalid
  obtain ⟨_, horder, hrest⟩ := Result.bind_eq_ok.1 hrest
  obtain ⟨_, hmetrics, hrest⟩ := Result.bind_eq_ok.1 hrest
  obtain ⟨_, hgroups, _⟩ := Result.bind_eq_ok.1 hrest
  refine Result.bind_eq_ok.2 ⟨(), hleaves, Result.bind_eq_ok.2 ⟨(), horder, ?_⟩⟩
  exact Result.bind_eq_ok.2 ⟨(), hmetrics, Result.bind_eq_ok.2 ⟨(), hgroups, rfl⟩⟩

namespace Entry

variable {e : Entry} {registry : Registry} {request : Request} {compiled : Compiled}
  {relation : Relation}

/-- A valid request is compiled for the store of its resource. -/
theorem compileRequest_of_validate (hvalid : request.validate registry e.resource = .ok ()) :
    e.compileRequest registry request = e.backend.compile registry e.resource request := by
  rw [compileRequest, hvalid]
  rfl

/-- What a compiled query accounts for, of the relations that its request selects. -/
theorem accountsFor_iff (hrelations : (e.resource.relations.map (·.name)).Nodup)
    (htarget : ∃ target, registry.resource? relation.target = some target)
    (hfetch : request.fetch.IsDistinct) (hparts : request.IsValid registry e.resource)
    (hcompile : e.backend.compile registry e.resource request = .ok compiled)
    (hselects : request.fetch.Selects e.resource relation) :
    compiled.AccountsFor registry relation ↔
      ¬ (e.backend.kind = .searchIndex ∧ relation.embedded = false) := by
  cases hbackend : e.backend with
  | relational dialect functions =>
      rw [hbackend] at hcompile
      obtain ⟨query, hquery, rfl⟩ := Result.map_eq_ok.1 hcompile
      have honce := Sql.Target.loadsOnce_of_compile hrelations hfetch hquery hselects
      exact iff_of_true honce (by simp [Backend.kind])
  | document functions =>
      rw [hbackend] at hcompile
      obtain ⟨query, hquery, rfl⟩ := Result.map_eq_ok.1 hcompile
      refine iff_of_true ?_ (by simp [Backend.kind])
      cases hembedded : relation.embedded with
      | true => exact .inl hembedded
      | false =>
          obtain ⟨target, htarget⟩ := htarget
          exact .inr ⟨target, htarget, Document.Target.loadsUnderName_of_compile hrelations
            hfetch hparts hquery hselects hembedded htarget⟩
  | searchIndex =>
      rw [hbackend] at hcompile
      obtain ⟨query, _, rfl⟩ := Result.map_eq_ok.1 hcompile
      simp [Compiled.AccountsFor, Backend.kind]

/-- A relational store lacks a way to load what is embedded. -/
theorem lacks_of_selects_embedded (hkind : e.backend.kind = .relational)
    (hselects : request.fetch.Selects e.resource relation) (hembedded : relation.embedded = true) :
    e.backend.Lacks registry e.resource request := by
  cases hbackend : e.backend with
  | relational dialect functions => exact .embeddedFetch relation hselects hembedded
  | document functions => simp [hbackend, Backend.kind] at hkind
  | searchIndex => simp [hbackend, Backend.kind] at hkind

/-- A search index does not look at what a request selects. -/
theorem compile_selecting_nothing (hkind : e.backend.kind = .searchIndex) :
    e.backend.compile registry e.resource request =
      e.backend.compile registry e.resource { request with fetch := .none } := by
  cases hbackend : e.backend with
  | searchIndex => rfl
  | relational dialect functions => simp [hbackend, Backend.kind] at hkind
  | document functions => simp [hbackend, Backend.kind] at hkind

/-- A compiled request accounts for every relation that it selects, but for a reference on a search
index. A relational store refuses to load what is embedded. A search index compiles a request as if
it selected nothing, references included. -/
theorem accountsFor_selected_iff {options : Options} {entries : List Entry} {registry : Registry}
    (hbuild : Registry.build options entries = .ok registry) {name : String} {e : Entry}
    (hentry : registry.entry? name = some e) {params : Params} {request : Request}
    (hread : e.read registry params = .ok request)
    (hvalid : request.validate registry e.resource = .ok ()) :
    (∀ compiled, e.compileRequest registry request = .ok compiled →
      ∀ relation, request.fetch.Selects e.resource relation →
        (compiled.AccountsFor registry relation ↔
          ¬ (e.backend.kind = .searchIndex ∧ relation.embedded = false))) ∧
    (e.backend.kind = .relational →
      ∀ relation, request.fetch.Selects e.resource relation → relation.embedded = true →
        ∃ error, e.compileRequest registry request = .error error ∧ error.IsUnsupported) ∧
    (e.backend.kind = .searchIndex →
      e.compileRequest registry request =
        e.compileRequest registry { request with fetch := .none }) := by
  obtain ⟨hentries, hchecked, htargetsChecked⟩ := Registry.build_eq_ok hbuild
  have hmem : e ∈ registry.entries := List.mem_of_find?_eq_some hentry
  have hrelations : (e.resource.relations.map (·.name)).Nodup :=
    Resource.nodup_relations (Registry.check_of_mem hchecked e (hentries ▸ hmem))
  have htargets : ∀ relation ∈ e.resource.relations,
      ∃ target, registry.resource? relation.target = some target :=
    fun relation hrelation => Registry.resource?_target htargetsChecked hmem hrelation
  have hfetch := Request.fetch_ofParams hread
  have hparts := Request.isValid_of_validate hvalid
  rw [compileRequest_of_validate hvalid,
    compileRequest_of_validate (Request.validate_selecting_nothing hvalid)]
  refine ⟨fun compiled hcompile relation hselects => ?_,
    fun hkind relation hselects hembedded => ?_, compile_selecting_nothing⟩
  · exact accountsFor_iff hrelations (htargets relation hselects.mem) hfetch hparts hcompile
      hselects
  · have hrefused := e.backend.refusedIff_compile (Request.ready_of_valid
      (Request.built_ofParams hread) hparts) hparts htargets
    obtain ⟨error, herror⟩ := hrefused.exists_error_iff.2
      (lacks_of_selects_embedded hkind hselects hembedded)
    exact ⟨error, herror, hrefused.isUnsupported herror⟩

end Entry

namespace Newsroom

/-- Stories with photos inside of each; a story has a desk and any number of sources. -/
def story : Resource where
  name := "story"
  storage := "stories"
  relations := [
    .within "photos" "photo" true,
    .toOne "desk" "desk" "desk_id" "id",
    .toMany "sources" "source" "id" "story_id"]

def stories (backend : Backend) : Entry := ⟨story, backend⟩

def entries (backend : Backend) : List Entry :=
  stories backend :: [{ name := "photo", storage := "photos" },
    { name := "desk", storage := "desks" }, { name := "source", storage := "sources" }].map
      (⟨·, backend⟩)

def registry (backend : Backend) : Registry where
  entries := entries backend

theorem build_entries (backend : Backend) :
    Registry.build {} (entries backend) = .ok (registry backend) := by
  cases backend <;> rfl

theorem story_registered (backend : Backend) :
    Registry.entry? (registry backend) "story" = some (stories backend) := rfl

/-- A request that selects relations. -/
def selecting (fetch : Fetch) : Request where
  fetch := fetch

/-- A document store accounts for all relations of a story. -/
theorem accountsFor_selected_all :
    ∃ compiled, (stories (.document [])).compileRequest (registry (.document []))
        (selecting .all) = .ok compiled ∧
      ∀ relation ∈ story.relations, compiled.AccountsFor (registry (.document [])) relation := by
  have hread : (stories (.document [])).read (registry (.document []))
      ⟨[("relations", "_all")]⟩ = .ok (selecting .all) := rfl
  obtain ⟨haccounts, -, -⟩ := Entry.accountsFor_selected_iff (build_entries (.document []))
    (story_registered (.document [])) hread rfl
  refine ⟨_, rfl, fun relation hrelation => (haccounts _ rfl relation hrelation).2 ?_⟩
  simp [stories, Backend.kind]

/-- A search index lists stories as if their desk had not been asked for. -/
theorem selected_desk_dropped :
    Registry.build {} (entries .searchIndex) = .ok (registry .searchIndex) ∧
    Registry.entry? (registry .searchIndex) "story" = some (stories .searchIndex) ∧
    (stories .searchIndex).read (registry .searchIndex) ⟨[("relations", "desk")]⟩ =
      .ok (selecting (.named ["desk"])) ∧
    (selecting (.named ["desk"])).validate (registry .searchIndex) story = .ok () ∧
    (selecting (.named ["desk"])).fetch.Selects story (.toOne "desk" "desk" "desk_id" "id") ∧
    ∃ compiled, (stories .searchIndex).compileRequest (registry .searchIndex)
        (selecting (.named ["desk"])) = .ok compiled ∧
      (stories .searchIndex).compileRequest (registry .searchIndex) (selecting .none) =
        .ok compiled ∧
      ¬ compiled.AccountsFor (registry .searchIndex) (.toOne "desk" "desk" "desk_id" "id") :=
  ⟨rfl, rfl, rfl, rfl, ⟨"desk", by decide, rfl⟩, _, rfl, rfl, Bool.false_ne_true⟩

end Newsroom
end Listing

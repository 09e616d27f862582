/-
# Groups of related documents

The totals look up all references of their paths first, and unwind the lists of references to many
after that. As long as no reference starts from such a list, every document that is grouped then
stands for a chain: its groups and metrics are read from documents that are related to each other,
just as in the rows that left joins make.

A reference behind one to many is looked up from all elements of the list at once. Unwound
afterwards, each of the elements meets what any of them leads to.
-/
import Listing.Proofs.PipelineScope
import Listing.Proofs.Semantics.Chains

namespace Listing.Document

/-- No relation of a resource has a name that is a path. -/
def HasPlainNames (resource : Resource) : Prop :=
  ∀ relation ∈ resource.relations, '.' ∉ relation.name.toList

instance (resource : Resource) : Decidable (HasPlainNames resource) :=
  inferInstanceAs (Decidable (∀ relation ∈ resource.relations, '.' ∉ relation.name.toList))

/-- Every lookup from a field under a label comes after this label was unwound. -/
def UnwindsFirst (label : String) (stages : List Stage) : Prop :=
  ∀ before collection localField foreignField other after,
    stages = before ++ .lookup collection localField foreignField other :: after →
      Within label localField → ∃ keepEmpty, .unwind label keepEmpty ∈ before

namespace Target

variable (t : Target) (a : Aggregate)

/-- The routes that groups and metrics use. -/
def totalsRoutes : List Route := t.registry.routesUsed t.resource a.paths

/-- No reference that groups and metrics use starts from what a reference to many leads to. -/
def NoneBehindMany : Prop :=
  ∀ route ∈ t.totalsRoutes a, route.isReference = true → route.anchor.endsInMany = false

instance : Decidable (t.NoneBehindMany a) :=
  inferInstanceAs (Decidable (∀ route ∈ t.totalsRoutes a, route.isReference = true →
    route.anchor.endsInMany = false))

/-- Nothing is looked up from what a reference to many leads to before it is unwound. -/
def UnwindsChains (stages : List Stage) : Prop :=
  ∀ route ∈ t.totalsRoutes a, route.endsInMany = true →
    UnwindsFirst (route.aliasName totalsStem) stages

/-- The field of a path in a document has the values that a chain has there. -/
def Reads (chain : Chain) (listed d : Doc) (path : Path) : Prop :=
  ∀ param located, t.registry.locate t.resource param path = .ok located →
    keysAt (fieldOf totalsStem located) d =
      chain.valuesOf listed located.route located.attr.columnName

end Target

section Names

/-- Names that are no paths are joined to one that is none. -/
theorem dotless_joinText {names : List String} (hnames : ∀ name ∈ names, '.' ∉ name.toList) :
    '.' ∉ (Path.joinText names).toList := by
  rw [Path.joinText, String.toList_intercalate]
  induction names with
  | nil => exact List.not_mem_nil
  | cons name names ih =>
      obtain ⟨hname, hrest⟩ := List.forall_mem_cons.1 hnames
      cases names with
      | nil => simpa using hname
      | cons next names =>
          have hjoined := ih hrest
          rw [List.map_cons] at hjoined
          rw [List.map_cons, List.map_cons, List.intercalate_cons_cons, List.mem_append,
            List.mem_append, not_or, not_or]
          exact ⟨⟨hname, by decide⟩, hjoined⟩

theorem dotless_aliasName {route : Route} (hroute : ∀ hop ∈ route, '.' ∉ hop.relation.name.toList)
    {stem : String} (hstem : stem ∈ labelStems) : '.' ∉ (route.aliasName stem).toList := by
  rw [Route.aliasName, String.toList_append, List.mem_append, not_or]
  refine ⟨(show ∀ stem ∈ labelStems, '.' ∉ stem.toList by decide) stem hstem, ?_⟩
  refine dotless_joinText fun name hname => ?_
  obtain ⟨hop, hhop, rfl⟩ := List.mem_map.1 hname
  exact hroute hop hhop

/-- What lies below one of two labels that are no paths lies below no other. -/
theorem eq_of_within {label other rest : String} (hlabel : '.' ∉ label.toList)
    (hother : '.' ∉ other.toList) (hwithin : Within label (other ++ "." ++ rest)) :
    other = label := by
  rcases hwithin with heq | ⟨name, heq⟩
  · refine absurd ?_ hlabel
    simp [← heq]
  · have hnames := congrArg (fun s => (pathNames s).head?) heq
    simpa [pathNames_append hlabel, pathNames_append hother] using hnames

end Names

section Lookups

variable {joins : Joins}

/-- The lookup of a reference is among the lookups. -/
theorem lookup_mem_lookups {route : Route} (hroute : route ∈ joins.routes) {hop : Hop}
    (hlast : hop ∈ route.getLast?) (hseparate : hop.relation.embedded = false) :
    .lookup hop.target.storage
      (below (fieldOfRoute joins.stem route.dropLast) hop.relation.localKey)
      hop.relation.foreignKey (route.aliasName joins.stem) ∈ lookups joins := by
  refine List.mem_flatMap.2 ⟨route, hroute, ?_⟩
  cases hmany : hop.relation.many <;>
    simp [reach, Option.mem_def.1 hlast, hseparate, lookupStages, hmany]

/-- A lookup is that of a reference, from where the route before it ends. -/
theorem of_lookup_mem_lookups {collection localField foreignField label : String}
    (hlookup : .lookup collection localField foreignField label ∈ lookups joins) :
    ∃ route ∈ joins.routes, ∃ hop ∈ route.getLast?, hop.relation.embedded = false ∧
      localField = below (fieldOfRoute joins.stem route.dropLast) hop.relation.localKey := by
  obtain ⟨route, hroute, hop, hlast, hseparate, hstage⟩ := mem_lookups hlookup
  refine ⟨route, hroute, hop, hlast, hseparate, ?_⟩
  cases hmany : hop.relation.many <;> simp_all [lookupStages]

/-- Only references to one are unwound by their lookups. -/
theorem unwind_mem_lookups {label : String} {keepEmpty : Bool}
    (hunwind : .unwind label keepEmpty ∈ lookups joins) :
    ∃ route ∈ joins.routes, route.endsInMany = false ∧ label = route.aliasName joins.stem := by
  obtain ⟨route, hroute, hop, hlast, _, hstage⟩ := mem_lookups hunwind
  obtain ⟨hone, hlabel⟩ := Target.unwind_mem_lookupStages hstage
  exact ⟨route, hroute, by simp [Route.endsInMany, Option.mem_def.1 hlast, hone], hlabel⟩

end Lookups

namespace Target

variable {t : Target} {a : Aggregate} {request : Request} {stem : String} {paths : List Path}

section Names

variable (hnames : ∀ entry ∈ t.registry.entries, LeavesLabels entry.resource)
  (hresource : LeavesLabels t.resource)

include hnames hresource

/-- The local field of a lookup is one of the listed document, and not named like a label, or lies
below the label of the anchor. -/
theorem localField_cases {route : Route} (hroute : route ∈ t.registry.routesUsed t.resource paths)
    {hop : Hop} (hlast : hop ∈ route.getLast?) (stem : String) :
    let field := below (fieldOfRoute stem route.dropLast) hop.relation.localKey
    (route.anchor = [] ∧ ¬ IsLabelled field ∧ ¬ IsLabelled (route.within hop.relation.localKey)) ∨
      route.anchor ≠ [] ∧
        field = route.anchor.aliasName stem ++ "." ++ route.within hop.relation.localKey := by
  obtain ⟨_, path, _, hbegins⟩ := Registry.mem_routesUsed.1 hroute
  have hhops : ∀ hop ∈ route, ¬ IsLabelled hop.relation.name ∧ ¬ IsLabelled hop.relation.localKey :=
    fun hop hhop => not_isLabelled_of_walk hnames hresource (hbegins.subset hhop)
  have hwithin : ¬ IsLabelled (route.within hop.relation.localKey) := by
    have hbefore : ∀ hop ∈ route.dropLast, ¬ IsLabelled hop.relation.name := fun hop hhop =>
      (hhops hop (List.dropLast_subset _ hhop)).1
    exact not_isLabelled_pathTo hbefore (hhops hop (List.mem_of_getLast? hlast)).2
  dsimp only
  rw [below_fieldOfRoute]
  by_cases hanchor : route.anchor = []
  · refine .inl ⟨hanchor, ?_, hwithin⟩
    rw [if_pos (show Route.holder route.dropLast = [] from hanchor)]
    exact hwithin
  · refine .inr ⟨hanchor, ?_⟩
    rw [if_neg (show ¬ Route.holder route.dropLast = [] from hanchor)]
    rfl

/-- A page looks nothing up from what totals look up. -/
theorem not_within_page {collection localField foreignField other : String} {route : Route}
    (hlookup : .lookup collection localField foreignField other ∈
      lookups (t.joinsOf Joins.defaultStem paths)) :
    ¬ Within (route.aliasName totalsStem) localField := by
  intro hwithin
  obtain ⟨last, hmem, hop, hlast, _, rfl⟩ := of_lookup_mem_lookups hlookup
  rcases localField_cases hnames hresource hmem hlast Joins.defaultStem with
    ⟨_, hplain, _⟩ | ⟨_, hfield⟩
  · exact hplain (isLabelled_of_within (isLabelled_aliasName (by simp [labelStems]) route) hwithin)
  · have hbelow : below (fieldOfRoute Joins.defaultStem last.dropLast) hop.relation.localKey = _ :=
      hfield
    rcases hwithin with heq | ⟨rest, heq⟩
    all_goals
      have hfirst := congrArg (fun s : String => s.toList.head?) (hbelow.symm.trans heq)
      simp [Route.aliasName, Joins.defaultStem, totalsStem] at hfirst

end Names

/-- The aliases of the routes that written paths use are different. -/
theorem eq_of_aliasName_eq (hwritten : ∀ path ∈ paths, path.IsWritten) {route other : Route}
    (hroute : route ∈ t.registry.routesUsed t.resource paths)
    (hother : other ∈ t.registry.routesUsed t.resource paths)
    (halias : route.aliasName stem = other.aliasName stem) : route = other :=
  List.inj_on_of_nodup_map (Registry.nodup_aliasNames hwritten stem) hroute hother halias

/-- Nothing that a page looks up is unwound under a label of the totals. -/
theorem unwind_notMem_sharedStages {condition : Option Filter} {route : Route} {keepEmpty : Bool} :
    .unwind (route.aliasName totalsStem) keepEmpty ∉ t.sharedStages request condition := by
  intro hunwind
  rcases List.mem_append.1 hunwind with hlookup | hkeep
  · obtain ⟨other, _, _, hlabel⟩ := unwind_mem_lookups hlookup
    exact Route.aliasName_ne hlabel.symm
  · obtain ⟨filter, _, heq⟩ := List.mem_map.1 hkeep
    cases heq

section Order

variable (hwritten : ∀ path ∈ a.paths, path.IsWritten) {condition : Option Filter} {q : TotalsQuery}
  (htotals : t.totals (t.sharedStages request condition) a = .ok (some q))

include hwritten htotals

/-- A reference that starts from a list is looked up before the list is unwound. -/
theorem noneBehindMany_of_unwindsChains (hfirst : t.UnwindsChains a q.pipeline) :
    t.NoneBehindMany a := by
  obtain ⟨groups, fields, shaping, _, hpipeline, _⟩ := totals_eq_grouped htotals
  intro route hroute hreference
  obtain ⟨hop, hlast, hseparate⟩ := Route.isReference_iff.1 hreference
  refine Bool.eq_false_iff.2 fun hmany => ?_
  have hanchor : route.anchor ≠ [] := fun hempty => by
    rw [hempty] at hmany
    cases hmany
  have hbefore : route.anchor ∈ t.totalsRoutes a :=
    (t.registry.isOrdered_routesUsed _ _).mem_of_begins hroute hanchor route.anchor_begins
  have hwithin : Within (route.anchor.aliasName totalsStem)
      (below (fieldOfRoute totalsStem route.dropLast) hop.relation.localKey) := by
    rw [below_fieldOfRoute, if_neg (show ¬ Route.holder route.dropLast = [] from hanchor)]
    exact .inr ⟨_, rfl⟩
  have hlookup : _ ∈ lookups (t.joinsOf totalsStem a.paths) :=
    lookup_mem_lookups hroute hlast hseparate
  obtain ⟨before, after, hsplit⟩ := List.append_of_mem hlookup
  have hwhole := hpipeline
  rw [hsplit] at hwhole
  simp only [List.append_assoc, List.cons_append] at hwhole
  rw [← List.append_assoc] at hwhole
  obtain ⟨keepEmpty, hunwind⟩ := hfirst _ hbefore hmany _ _ _ _ _ _ hwhole hwithin
  rcases List.mem_append.1 hunwind with hshared | hlooked
  · exact unwind_notMem_sharedStages hshared
  · have hstage : _ ∈ lookups (t.joinsOf totalsStem a.paths) :=
      hsplit ▸ List.mem_append_left _ hlooked
    obtain ⟨other, hother, hone, hlabel⟩ := unwind_mem_lookups hstage
    rw [eq_of_aliasName_eq hwritten hbefore hother hlabel, hone] at hmany
    cases hmany

/-- If no reference starts from a list, nothing is looked up from one. -/
theorem unwindsChains_of_noneBehindMany
    (hnames : ∀ entry ∈ t.registry.entries, LeavesLabels entry.resource)
    (hresource : LeavesLabels t.resource)
    (hdotless : ∀ route ∈ t.totalsRoutes a, '.' ∉ (route.aliasName totalsStem).toList)
    (hnone : t.NoneBehindMany a) : t.UnwindsChains a q.pipeline := by
  obtain ⟨groups, fields, shaping, _, hpipeline, hshaping⟩ := totals_eq_grouped htotals
  intro route hroute hmany before collection localField foreignField other after hsplit hwithin
  have hlookup : .lookup collection localField foreignField other ∈ q.pipeline := by
    rw [hsplit]
    simp
  rw [hpipeline, List.mem_append, List.mem_append, List.mem_append] at hlookup
  rcases hlookup with (hshared | hlooked | hunwind) | hshaped
  · rcases List.mem_append.1 hshared with hpage | hkeep
    · exact absurd hwithin (not_within_page hnames hresource hpage)
    · obtain ⟨filter, _, heq⟩ := List.mem_map.1 hkeep
      cases heq
  · obtain ⟨last, hmem, hop, hlast, hseparate, rfl⟩ := of_lookup_mem_lookups hlooked
    have hreference := Route.isReference_iff.2 ⟨hop, hlast, hseparate⟩
    rcases localField_cases hnames hresource hmem hlast totalsStem with
      ⟨_, hplain, _⟩ | ⟨hanchor, hfield⟩
    · have hstem : totalsStem ∈ labelStems := by simp [labelStems]
      have hlabelled := isLabelled_aliasName hstem route
      exact absurd (isLabelled_of_within hlabelled hwithin) hplain
    · have hbefore : last.anchor ∈ t.totalsRoutes a :=
        (t.registry.isOrdered_routesUsed _ _).mem_of_begins hmem hanchor last.anchor_begins
      have halias := eq_of_within (hdotless route hroute) (hdotless _ hbefore) (hfield ▸ hwithin)
      have hends := hnone last hmem hreference
      rw [eq_of_aliasName_eq hwritten hbefore hroute halias, hmany] at hends
      cases hends
  · obtain ⟨_, _, _, heq⟩ := mem_unwindStages hunwind
    cases heq
  · have hlabel : other ∈ lookupLabels (.group groups fields :: shaping) :=
      List.mem_filterMap.2 ⟨_, hshaped, rfl⟩
    rw [hshaping] at hlabel
    cases hlabel

end Order

/-- The stages that page and totals begin with change only labels. -/
theorem changesLabels_of_mem_sharedStages {condition : Option Filter} :
    ∀ stage ∈ t.sharedStages request condition, stage.ChangesLabels := by
  intro stage hstage
  rcases List.mem_append.1 hstage with hlookup | hkeep
  · obtain ⟨route, _, hop, _, _, hmem⟩ := mem_lookups hlookup
    have hlabelled : IsLabelled (route.aliasName Joins.defaultStem) :=
      isLabelled_aliasName (by simp [labelStems]) route
    cases hmany : hop.relation.many <;> simp [lookupStages, hmany] at hmem
    · rcases hmem with rfl | rfl <;> exact hlabelled
    · rw [hmem]
      exact hlabelled
  · obtain ⟨filter, _, rfl⟩ := List.mem_map.1 hkeep
    trivial

section Chains

variable (hnames : ∀ entry ∈ t.registry.entries, LeavesLabels entry.resource)
  (hresource : LeavesLabels t.resource)
  (hdotless : ∀ route ∈ t.totalsRoutes a, '.' ∉ (route.aliasName totalsStem).toList)

include hnames hresource hdotless

/-- Without a reference that starts from a list, the lookups of the totals start from chains. -/
theorem correlated_totalsRoutes (hwritten : ∀ path ∈ a.paths, path.IsWritten)
    (hnone : t.NoneBehindMany a) : Store.Correlated totalsStem (t.totalsRoutes a) where
  stems := by simp [labelStems]
  ordered := t.registry.isOrdered_routesUsed _ _
  distinct := Registry.nodup_aliasNames hwritten totalsStem
  dotless := hdotless
  plain route hroute hop hlast hanchor := by
    rcases localField_cases hnames hresource hroute hlast totalsStem with
      ⟨_, _, hplain⟩ | ⟨hother, _⟩
    · exact hplain
    · exact absurd hanchor hother
  single := hnone

/-- A document that stands for a chain has its values in the fields of all paths. -/
theorem reads_of_fits {store : Store} {chain : Chain} {listed d : Doc}
    (hfits : store.Fits chain listed totalsStem (t.totalsRoutes a) [] d) {path : Path}
    (hpath : path ∈ a.paths) : t.Reads chain listed d path := by
  intro param located hlocate
  obtain ⟨hused, hhops, hcolumn⟩ := leavesLabels_of_locate hnames hresource hpath hlocate
  have hholder : located.route.holder ≠ [] → located.route.holder ∈ t.totalsRoutes a := by
    intro hnonempty
    have hmem : located.route ∈ t.totalsRoutes a := hused.resolve_left fun hempty => by
      rw [hempty] at hnonempty
      exact hnonempty rfl
    exact (t.registry.isOrdered_routesUsed _ _).mem_of_begins hmem hnonempty
      located.route.holder_begins
  refine keysAt_below (fun _ => not_isLabelled_pathTo hhops hcolumn)
    (fun hnonempty => hdotless _ (hholder hnonempty)) hfits.own fun hnonempty => ?_
  obtain ⟨hop, hlast, hseparate⟩ := Route.isReference_iff.1 (Route.isReference_holder hnonempty)
  exact (hfits.taken _ (hholder hnonempty) List.not_mem_nil hop hlast hseparate).1

/-- Without a reference that starts from a list, every document that totals group stands for a
chain. -/
theorem allFit_totals (hwritten : ∀ path ∈ a.paths, path.IsWritten) (hnone : t.NoneBehindMany a)
    {condition : Option Filter} {store : Store} {docs outs : List Doc}
    (hruns : store.Runs (t.sharedStages request condition ++
      (lookups (t.joinsOf totalsStem a.paths) ++ unwindStages (t.joinsOf totalsStem a.paths)))
      docs outs) :
    store.AllFit totalsStem docs (t.totalsRoutes a) [] outs := by
  have hroutes := correlated_totalsRoutes hnames hresource hdotless hwritten hnone
  rw [Store.runs_append] at hruns
  obtain ⟨found, hshared, hruns⟩ := hruns
  rw [Store.runs_append] at hruns
  obtain ⟨looked, hlookups, hunwinds⟩ := hruns
  have hdocs : store.AllFit totalsStem docs [] [] docs := fun d hd =>
    ⟨d, hd, fun _ => none, fun _ _ => rfl, List.forall_mem_nil _, List.forall_mem_nil _⟩
  have hfound := Store.allFit_of_runs changesLabels_of_mem_sharedStages hdocs hshared
  have hlooked := Store.allFit_lookups hroutes hfound hlookups
  rw [unwindStages_eq] at hunwinds
  refine Store.allFit_unwinds hroutes ?_ (fun route hroute => ?_) hlooked hunwinds
  · exact (List.Nodup.of_map _ hroutes.distinct).filter _
  · exact List.mem_filter.1 hroute

end Chains

/-- Nothing that groups and metrics need is looked up from a list that is unwound later, exactly if
no reference on their paths is behind one to many. Then every document that is grouped stands for a
chain of related documents: all its groups and metrics are read from this chain. -/
theorem totals_read_chains {params : Params} {options : Options} {query : Query} {q : TotalsQuery}
    (hnames : ∀ entry ∈ t.registry.entries, LeavesLabels entry.resource)
    (hresource : LeavesLabels t.resource)
    (hplain : ∀ entry ∈ t.registry.entries, HasPlainNames entry.resource)
    (hown : HasPlainNames t.resource)
    (hread : Request.ofParams params t.resource options = .ok request)
    (hcompile : t.compile request = .ok query) (htotals : query.totals = some q) :
    (t.UnwindsChains request.aggregate q.pipeline ↔ t.NoneBehindMany request.aggregate) ∧
    (t.NoneBehindMany request.aggregate → ∃ selecting groups fields shaping,
      q.pipeline = selecting ++ .group groups fields :: shaping ∧
      request.aggregate.groupBy.mapM (fun path => do
        return (path.label, ← t.field totalsStem Param.groupBy path)) = .ok groups ∧
      ∀ (store : Store) outs,
        store.Runs selecting (store.documents query.collection) outs → ∀ d ∈ outs,
          ∃ listed ∈ store.documents query.collection, ∃ chain,
            store.IsChain chain listed (t.totalsRoutes request.aggregate) ∧
            ∀ path ∈ request.aggregate.paths, t.Reads chain listed d path) := by
  have hwritten : ∀ path ∈ request.aggregate.paths, path.IsWritten := fun path hpath =>
    Request.isWritten_ofParams hread path (request.path_mem_of_totals hpath)
  have hdotless : ∀ route ∈ t.totalsRoutes request.aggregate,
      '.' ∉ (route.aliasName totalsStem).toList := by
    intro route hroute
    refine dotless_aliasName (fun hop hhop => ?_) (by simp [labelStems])
    obtain ⟨_, path, _, hbegins⟩ := Registry.mem_routesUsed.1 hroute
    rcases (Registry.mem_walk (hbegins.subset hhop)).1 with hfirst | ⟨owner, howner, hrelation⟩
    · exact hown _ hfirst
    · exact hplain owner howner _ hrelation
  obtain ⟨condition, _, _, _, hcompiled, _⟩ := compile_eq_shared hcompile
  rw [htotals] at hcompiled
  refine ⟨⟨noneBehindMany_of_unwindsChains hwritten hcompiled, fun hnone => ?_⟩, fun hnone => ?_⟩
  · exact unwindsChains_of_noneBehindMany hwritten hcompiled hnames hresource hdotless hnone
  · obtain ⟨groups, fields, shaping, hgroups, hpipeline, _⟩ := totals_eq_grouped hcompiled
    refine ⟨_, groups, fields, shaping, hpipeline, hgroups, fun store outs hruns d hd => ?_⟩
    obtain ⟨listed, hlisted, chain, hfits⟩ :=
      allFit_totals hnames hresource hdotless hwritten hnone hruns d hd
    exact ⟨listed, hlisted, chain, hfits.isChain, fun path hpath =>
      reads_of_fits hnames hresource hdotless hfits hpath⟩

end Target

namespace Magazine

theorem hasPlainNames_listing (resource : Resource) :
    ∀ entry ∈ (listing resource).registry.entries, HasPlainNames entry.resource := by
  simp only [listing, List.map_cons, List.map_nil, List.forall_mem_cons, List.not_mem_nil,
    false_imp_iff, implies_true, and_true]
  decide

/-- How many articles there are for each verdict and each team of an author. -/
def byVerdict : Request where
  aggregate := {
    metrics := [⟨.count, none⟩]
    groupBy := [⟨["reviews"], "verdict"⟩, ⟨["author", "team"], "name"⟩] }

/-- The team is that of the author of the article, which has only one, so a verdict may be paired
with it. -/
theorem totals_read_chains_byVerdict :
    ∃ query q, (listing article).compile byVerdict = .ok query ∧ query.totals = some q ∧
      (listing article).UnwindsChains byVerdict.aggregate q.pipeline ∧
      ∃ selecting groups fields shaping, q.pipeline = selecting ++ .group groups fields :: shaping ∧
        ∀ outs, store.Runs selecting (store.documents "articles") outs → ∀ d ∈ outs,
          ∃ chain, store.IsChain chain news ((listing article).totalsRoutes byVerdict.aggregate) ∧
            ∀ path ∈ byVerdict.aggregate.paths, (listing article).Reads chain news d path := by
  have hread : Request.ofParams ⟨[("group_by", "reviews__verdict,author__team__name")]⟩ article {} =
      .ok byVerdict := rfl
  obtain ⟨hfirst, hchains⟩ := Target.totals_read_chains (leavesLabels_listing article)
    (leavesLabels_listing article _ List.mem_cons_self) (hasPlainNames_listing article)
    (hasPlainNames_listing article _ List.mem_cons_self) hread
    (show (listing article).compile byVerdict = _ from rfl) rfl
  have hnone : (listing article).NoneBehindMany byVerdict.aggregate := by decide +kernel
  obtain ⟨selecting, groups, fields, shaping, hpipeline, _, hreads⟩ := hchains hnone
  refine ⟨_, _, rfl, rfl, hfirst.2 hnone, selecting, groups, fields, shaping, hpipeline, ?_⟩
  intro outs hruns d hd
  obtain ⟨listed, hlisted, chain, hchain, hpaths⟩ := hreads store outs hruns d hd
  obtain rfl := List.mem_singleton.1 hlisted
  exact ⟨chain, hchain, hpaths⟩

/-- How many articles there are for each verdict and each city of a reviewer. -/
def byCity : Request where
  aggregate := {
    metrics := [⟨.count, none⟩]
    groupBy := [⟨["reviews"], "verdict"⟩, ⟨["reviews", "author"], "city"⟩] }

def resident (id city : String) : Doc := [("_id", .string id), ("city", .string city)]

/-- The same article, with a good review from one city and a fair one from another. -/
def touring : Store := { store with
  documents := fun collection =>
    if collection = "authors" then [resident "ann" "Oslo", resident "bob" "Rome"]
    else store.documents collection }

/-- The stages that select what is grouped by verdicts and cities. -/
def selectingStages : List Stage := [
  .lookup "reviews" "_id" "article_id" "totals_reviews",
  .lookup "authors" "totals_reviews.author_id" "_id" "totals_reviews__author",
  .unwind "totals_reviews__author" true,
  .unwind "totals_reviews" true]

/-- The groups by verdicts and cities. -/
def cityGroups : List (String × String) :=
  [("reviews__verdict", "totals_reviews.verdict"),
    ("reviews__author__city", "totals_reviews__author.city")]

/-- The totals by verdicts and cities. -/
def cityTotals : TotalsQuery where
  pipeline := selectingStages ++ .group cityGroups [("count", .identities)] :: [
    .lengths ["count"],
    .sort [("_id.reviews__verdict", .ascending), ("count", .descending),
      ("_id.reviews__author__city", .ascending)],
    .project [("_id", .hidden), ("reviews__verdict", .renamed "_id.reviews__verdict"),
      ("reviews__author__city", .renamed "_id.reviews__author__city"), ("count", .shown)]]
  dimensions := ["reviews__verdict", "reviews__author__city"]
  metrics := ["count"]

theorem compile_byCity : (listing article).compile byCity = .ok {
    collection := "articles"
    pipeline := [.sort [("_id", .ascending)]]
    countPipeline := none
    totals := some cityTotals } := rfl

/-- The article with a review and an author. -/
def paired (review author : Doc) : Doc :=
  news ++ [("totals_reviews", .object review), ("totals_reviews__author", .object author)]

/-- Every review is paired with every author. -/
theorem runs_selectingStages : touring.Runs selectingStages (touring.documents "articles")
    [paired (reviewBy "ann" "good") (resident "ann" "Oslo"),
      paired (reviewBy "bob" "fair") (resident "ann" "Oslo"),
      paired (reviewBy "ann" "good") (resident "bob" "Rome"),
      paired (reviewBy "bob" "fair") (resident "bob" "Rome")] :=
  ⟨_, rfl, _, rfl, _, rfl, _, rfl, rfl⟩

/-- A good review is by an author from Oslo in every chain. -/
theorem not_good_from_rome {chain : Chain} {listed : Doc}
    (hchain : touring.IsChain chain listed [[toReviews], [toReviews, toAuthor]])
    (hgood : chain.valuesOf listed [toReviews] "verdict" = [.string "good"]) :
    chain.valuesOf listed [toReviews, toAuthor] "city" ≠ [.string "Rome"] := by
  have hreview := hchain [toReviews] (by simp) toReviews rfl rfl
  have hauthor := hchain [toReviews, toAuthor] (by simp) toAuthor rfl rfl
  have hfirst (name : String) : chain.valuesOf listed [toReviews] name =
      valuesAt (pathNames name) (((chain [toReviews]).map .object).getD .null) := rfl
  have hlast : chain.valuesOf listed [toReviews, toAuthor] "city" = valuesAt ["city"]
      (((chain [toReviews, toAuthor]).map .object).getD .null) := rfl
  rw [hfirst] at hgood
  rw [hlast]
  cases htaken : chain [toReviews] with
  | none =>
      rw [htaken] at hgood
      cases hgood
  | some review =>
      rw [htaken] at hreview hgood
      have hwritten : review ∈ [reviewBy "ann" "good", reviewBy "bob" "fair"] :=
        (List.mem_filter.1 hreview).1
      simp only [List.mem_cons, List.not_mem_nil, or_false] at hwritten
      rcases hwritten with rfl | rfl
      · have hfound : touring.foundBy chain listed [toReviews, toAuthor] toAuthor =
            [resident "ann" "Oslo"] := by
          rw [Store.foundBy, show chain.valuesOf listed (List.dropLast [toReviews, toAuthor])
            toAuthor.relation.localKey = _ from hfirst _, htaken]
          rfl
        rw [hfound] at hauthor
        cases hpick : chain [toReviews, toAuthor] with
        | none =>
            rw [hpick] at hauthor
            cases hauthor
        | some author =>
            rw [hpick] at hauthor
            rw [List.mem_singleton.1 hauthor]
            show [Json.string "Oslo"] ≠ [Json.string "Rome"]
            simp
      · have hverdict : [Json.string "fair"] = [.string "good"] := hgood
        simp at hverdict

/-- The authors of all reviews are looked up before the reviews are unwound. So a good review meets
an author from Rome, though every good review is from Oslo. -/
theorem totals_pair_strangers_byCity :
    Request.ofParams ⟨[("group_by", "reviews__verdict,reviews__author__city")]⟩ article {} =
        .ok byCity ∧
      byCity.validate (listing article).registry article = .ok () ∧
      ∃ query q, (listing article).compile byCity = .ok query ∧ query.totals = some q ∧
        ¬ (listing article).UnwindsChains byCity.aggregate q.pipeline ∧
        ∃ selecting shaping, q.pipeline = selecting ++ .group cityGroups [("count", .identities)] ::
            shaping ∧
          ∃ outs, touring.Runs selecting (touring.documents query.collection) outs ∧
            ∃ d ∈ outs, keysAt "totals_reviews.verdict" d = [.string "good"] ∧
              keysAt "totals_reviews__author.city" d = [.string "Rome"] ∧
              ∀ listed chain,
                touring.IsChain chain listed ((listing article).totalsRoutes byCity.aggregate) →
                  chain.valuesOf listed [toReviews] "verdict" = [.string "good"] →
                  chain.valuesOf listed [toReviews, toAuthor] "city" ≠ [.string "Rome"] := by
  have hread : Request.ofParams ⟨[("group_by", "reviews__verdict,reviews__author__city")]⟩
      article {} = .ok byCity := by cbv
  have hvalid : byCity.validate (listing article).registry article = .ok () := rfl
  have hroutes : (listing article).totalsRoutes byCity.aggregate =
      [[toReviews], [toReviews, toAuthor]] := rfl
  refine ⟨hread, hvalid, _, cityTotals, compile_byCity, rfl, ?_, selectingStages, _, rfl, _,
    runs_selectingStages, paired (reviewBy "ann" "good") (resident "bob" "Rome"), by simp,
    rfl, rfl, ?_⟩
  · intro hfirst
    obtain ⟨_, hunwind⟩ := hfirst [toReviews] (by rw [hroutes]; simp) rfl
      (selectingStages.take 1) _ _ _ _ _ rfl (.inr ⟨"author_id", rfl⟩)
    simp [selectingStages] at hunwind
  · rw [hroutes]
    exact fun listed chain hchain hgood => not_good_from_rome hchain hgood

end Magazine

end Listing.Document

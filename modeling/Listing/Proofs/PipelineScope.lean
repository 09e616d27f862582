/-
# Pipelines are well scoped

The pipelines of a page, a count and the totals begin with the lookups of filter and order. The page
takes their labels away again, once it is sorted and cut; the totals add lookups of their own, under
another stem. Every stage mentions fields under a label only while the label is there, and no two
lookups of a pipeline share one.

This holds where schemas leave labels alone, and where operands do. An operand after a chain of
functions stands in an expression as it is, so a text that begins with the sign and a stem is read
there as a field that nothing looks up.
-/
import Listing.Proofs.FieldScope
import Listing.Proofs.GroupOrder
import Listing.Proofs.PageDocuments
import Listing.Proofs.RouteNames

namespace Listing.Document

/-- The pipelines of a query. -/
def Query.pipelines (query : Query) : List (List Stage) :=
  query.pipeline :: (query.countPipeline.toList ++ query.totals.toList.map (·.pipeline))

/-- The labels are taken away again by a single stage: sorts and cuts come before it, as do all
lookups under them, and no later stage mentions or looks up anything under them. -/
def RemovesLabels (stages : List Stage) : Prop :=
  ∃ before after, stages = before ++ unsetStages (lookupLabels before) ++ after ∧
    (∀ stage ∈ before, stage.keepsFields = true) ∧
    (∀ stage ∈ after, ∃ relation collection localField label,
      stage ∈ lookupStages relation collection localField label) ∧
    ∀ stage ∈ after, ∀ field ∈ stage.mentions ++ stage.label?.toList,
      ∀ label ∈ lookupLabels before, ¬ Within label field

/-- The label of a metric begins with a function, and no function begins like a label. -/
theorem not_isLabelled_metric (m : Metric) : ¬ IsLabelled m.label := by
  rintro ⟨stem, hstem, rest, hrest⟩
  have hfunction := m.takeWhile_label
  rw [← hrest] at hfunction
  simp only [labelStems, List.mem_cons, List.not_mem_nil, or_false] at hstem
  rcases hstem with rfl | rfl <;> cases hname : m.function <;>
    simp [hname, Joins.defaultStem, totalsStem, MetricFunction.name] at hfunction

theorem not_isLabelled_idField (label : String) : ¬ IsLabelled (idField label) := by
  rintro ⟨stem, hstem, rest, hrest⟩
  simp only [labelStems, List.mem_cons, List.not_mem_nil, or_false] at hstem
  rcases hstem with rfl | rfl <;> simp [idField, Joins.defaultStem, totalsStem] at hrest

section Totals

variable {a : Aggregate}

/-- A key of a sort is one of those that were asked for. -/
theorem mem_of_mem_sortKeys {keys : List (String × Direction)} {name : String}
    (hname : name ∈ (sortKeys keys).map (·.1)) : name ∈ keys.map (·.1) := by
  obtain ⟨key, hkey, rfl⟩ := List.mem_map.1 hname
  exact List.mem_map_of_mem ((mem_foldl_insertEntry hkey).resolve_left List.not_mem_nil)

/-- Groups are ordered by their identities and by metrics. -/
theorem isPlain_groupOrder (dimensions : List String) (metrics : List Metric) :
    (Stage.sort (groupOrder dimensions (metrics.map Metric.label))).IsPlain := by
  intro name hname
  change name ∈ (groupOrder dimensions (metrics.map Metric.label)).map (·.1) at hname
  unfold groupOrder at hname
  split at hname
  · cases hname
  · have hkey := mem_of_mem_sortKeys hname
    simp only [List.map_append, List.map_map, List.mem_append, List.mem_map, List.mem_singleton,
      Function.comp_apply, List.map_cons, List.map_nil] at hkey
    rcases hkey with (⟨label, _, rfl⟩ | ⟨m, _, rfl⟩) | rfl
    · exact not_isLabelled_idField label
    · exact not_isLabelled_metric m
    · exact not_isLabelled_idField _

/-- The first groups of each parent are told apart by the identities of the groups. -/
theorem isPlain_limitStages {parents : List String} {order : List (String × Direction)}
    (horder : (Stage.sort order).IsPlain) (limit : Nat) :
    ∀ stage ∈ limitStages parents order limit, stage.IsPlain := by
  have hrows : ¬ IsLabelled rowsField := by decide
  unfold limitStages
  split
  · simp only [List.forall_mem_singleton]
    exact List.forall_mem_nil _
  · simp only [List.forall_mem_cons, List.not_mem_nil, false_imp_iff, implies_true, and_true]
    refine ⟨fun name hname => ?_, ?_, ?_, ?_, horder⟩
    · simp only [Stage.mentions, List.map_map, List.flatMap_cons, List.flatMap_nil,
        Accumulator.mentions, List.append_nil, List.mem_map] at hname
      obtain ⟨label, _, rfl⟩ := hname
      exact not_isLabelled_idField label
    all_goals
      intro name hname
      rw [List.mem_singleton.1 hname]
      exact hrows

/-- Ordering groups and keeping the first of them mentions only what groups consist of. -/
theorem isPlain_orderStages (dimensions : List String) (metrics : List Metric)
    (limit : Option Nat) :
    ∀ stage ∈ orderStages dimensions (metrics.map Metric.label) limit, stage.IsPlain := by
  have horder := isPlain_groupOrder dimensions metrics
  unfold orderStages
  split
  · exact List.forall_mem_nil _
  · refine List.forall_mem_cons.2 ⟨horder, ?_⟩
    cases limit with
    | none => exact List.forall_mem_nil _
    | some n => exact isPlain_limitStages horder n

/-- The result shows groups and metrics. -/
theorem isPlain_resultShape (dimensions : List String) (metrics : List Metric) :
    (Stage.project (resultShape dimensions (metrics.map Metric.label))).IsPlain := by
  intro name hname
  obtain ⟨field, hfield, hname⟩ := List.mem_flatMap.1 hname
  have hshown := (mem_foldl_insertEntry hfield).resolve_left List.not_mem_nil
  simp only [List.cons_append, List.mem_cons, List.mem_append, List.mem_map,
    exists_exists_and_eq_and] at hshown
  rcases hshown with rfl | ⟨label, _, rfl⟩ | ⟨m, _, rfl⟩
  · cases hname
  · rw [List.mem_singleton.1 hname]
    exact not_isLabelled_idField label
  · rw [List.mem_singleton.1 hname]
    exact not_isLabelled_metric m

end Totals

/-- No stage of totals that groups or follows the groups looks anything up. -/
theorem lookupLabels_totalsStages (a : Aggregate) (dimensions : List (String × String))
    (accumulators : List (String × Accumulator)) (limit : Option Nat) :
    lookupLabels (totalsStages a dimensions accumulators limit) = [] := by
  have hgrouping : lookupLabels (groupingStages dimensions accumulators) = [] := by
    unfold groupingStages
    split <;> rfl
  have horder (labels metrics : List String) :
      lookupLabels (orderStages labels metrics limit) = [] := by
    unfold orderStages
    split
    · rfl
    · cases limit with
      | none => rfl
      | some n =>
          dsimp only
          rw [Option.map_some, Option.getD_some, limitStages]
          split <;> rfl
  rw [totalsStages, lookupLabels_append, lookupLabels_append, hgrouping, horder]
  rfl

/-- Groups need their fields. What follows them mentions only groups and metrics. -/
theorem wellScoped_totalsStages {labels : List String} (a : Aggregate)
    {dimensions : List (String × String)} {accumulators : List (String × Accumulator)}
    (hgroups : ∀ d ∈ dimensions, InScope labels d.2)
    (haccumulators : ∀ field ∈ accumulators,
      (∀ name ∈ field.2.mentions, InScope labels name) ∧ ¬ IsLabelled field.1)
    (limit : Option Nat) : WellScoped labels (totalsStages a dimensions accumulators limit) := by
  have hlengths : ∀ stage ∈ (if (identityLabels accumulators).isEmpty then []
      else [Stage.lengths (identityLabels accumulators)]), stage.IsPlain := by
    split
    · exact List.forall_mem_nil _
    · rw [List.forall_mem_singleton]
      intro name hname
      obtain ⟨⟨label, read⟩, hfield, hidentity⟩ := List.mem_filterMap.1 hname
      dsimp only at hidentity
      split at hidentity
      · cases hidentity
        exact (haccumulators _ hfield).2
      · cases hidentity
  simp only [totalsStages, groupingStages, List.append_assoc, List.cons_append, List.nil_append]
  refine ⟨fun name hname => ?_, wellScoped_of_plain ?_⟩
  · rcases List.mem_append.1 hname with hgroup | hmetric
    · obtain ⟨d, hd, rfl⟩ := List.mem_map.1 hgroup
      exact hgroups d hd
    · obtain ⟨field, hfield, hname⟩ := List.mem_flatMap.1 hmetric
      exact (haccumulators field hfield).1 name hname
  · simp only [List.forall_mem_append, List.forall_mem_singleton]
    exact ⟨hlengths, isPlain_orderStages _ _ _, isPlain_resultShape _ _⟩

/-- What is unwound before the groups is the alias of a reference. -/
theorem mem_unwindStages {joins : Joins} {stage : Stage} (hstage : stage ∈ unwindStages joins) :
    ∃ route ∈ joins.routes, route.isReference = true ∧
      stage = .unwind (route.aliasName joins.stem) true := by
  rw [unwindStages_eq] at hstage
  obtain ⟨route, hroute, rfl⟩ := List.mem_map.1 hstage
  obtain ⟨hmem, hends⟩ := List.mem_filter.1 hroute
  exact ⟨route, hmem, Route.isReference_of_endsInMany hends, rfl⟩

theorem scoped_unwindStages (joins : Joins) : ∀ stage ∈ unwindStages joins,
    stage.keepsFields = true ∧ stage.label? = none ∧
      ∀ field ∈ stage.mentions, InScope (lookupFields joins) field := by
  intro stage hstage
  obtain ⟨route, hroute, hreference, rfl⟩ := mem_unwindStages hstage
  refine ⟨rfl, rfl, fun field hfield _ => ?_⟩
  exact ⟨_, aliasName_mem_lookupFields hroute hreference, .inl (List.mem_singleton.1 hfield)⟩

theorem lookupLabels_unwindStages (joins : Joins) : lookupLabels (unwindStages joins) = [] :=
  List.filterMap_eq_nil_iff.2 fun stage hstage => (scoped_unwindStages joins stage hstage).2.1

/-- An accumulator reads the field of its metric, or the identities of documents. -/
theorem mentions_accumulator (distinct : Bool) (function : MetricFunction)
    (field : Option String) :
    ∀ name ∈ (accumulator distinct function field).mentions, name ∈ field ∨ name = "_id" := by
  intro name hname
  unfold accumulator at hname
  split at hname
  · cases distinct with
    | false => cases hname
    | true => exact .inr (List.mem_singleton.1 hname)
  · exact .inl (congrArg some (List.mem_singleton.1 hname).symm)
  · cases hname
  · exact .inl (congrArg some (List.mem_singleton.1 hname).symm)

namespace Target

variable {t : Target} {request : Request} {labels : List String} {stem : String}
  {paths : List Path}

/-- The labels of the lookups of written paths are different. -/
theorem nodup_lookupFields (hpaths : ∀ path ∈ paths, path.IsWritten) :
    (lookupFields (t.joinsOf stem paths)).Nodup := by
  rw [lookupFields_eq_map]
  exact (Registry.nodup_aliasNames hpaths stem).sublist (List.filter_sublist.map _)

theorem isLabelled_of_mem_lookupFields (hstem : stem ∈ labelStems) {label : String}
    (hlabel : label ∈ lookupFields (t.joinsOf stem paths)) : IsLabelled label := by
  rw [lookupFields_eq_map] at hlabel
  obtain ⟨route, _, rfl⟩ := List.mem_map.1 hlabel
  exact isLabelled_aliasName hstem route

theorem keepsFields_of_mem_sharedStages {condition : Option Filter} {stage : Stage}
    (hstage : stage ∈ t.sharedStages request condition) : stage.keepsFields = true := by
  rcases List.mem_append.1 hstage with hlookup | hkeep
  · exact keepsFields_of_mem_lookups hlookup
  · obtain ⟨filter, _, rfl⟩ := List.mem_map.1 hkeep
    rfl

theorem lookupLabels_sharedStages (condition : Option Filter) :
    lookupLabels (t.sharedStages request condition) =
      lookupFields (t.joinsOf Joins.defaultStem request.pagePaths) := by
  rw [sharedStages, lookupLabels_append, lookupLabels_lookups]
  cases condition <;> exact List.append_nil _

/-- Cutting a page mentions and looks up nothing. -/
theorem plain_of_mem_cutStages {paging : Paging} {stage : Stage}
    (hstage : stage ∈ cutStages paging) :
    stage.keepsFields = true ∧ stage.IsPlain ∧ stage.label? = none := by
  revert stage
  unfold cutStages
  cases hlimit : paging.limit <;> split <;> simp [Stage.keepsFields, Stage.IsPlain,
    Stage.mentions, Stage.label?]

/-- Taking labels away mentions and looks up nothing. -/
theorem plain_of_mem_unsetStages {labels : List String} {stage : Stage}
    (hstage : stage ∈ unsetStages labels) : stage.IsPlain ∧ stage.label? = none := by
  revert stage
  unfold unsetStages
  split <;> simp [Stage.IsPlain, Stage.mentions, Stage.label?]

section Selected

variable {condition : Option Filter} {order : List (String × Direction)}

/-- The stages that select, sort and cut what a page shows. -/
def selectedStages (t : Target) (request : Request) (condition : Option Filter)
    (order : List (String × Direction)) : List Stage :=
  t.sharedStages request condition ++ [.sort order] ++ cutStages request.paging

/-- All stages of a page. -/
def pageOf (t : Target) (request : Request) (condition : Option Filter)
    (order : List (String × Direction)) : List Stage :=
  t.selectedStages request condition order ++
    unsetStages (lookupFields (t.joinsOf Joins.defaultStem request.pagePaths)) ++
    (t.loaded request).flatMap loadStages

theorem keepsFields_of_mem_selectedStages {stage : Stage}
    (hstage : stage ∈ t.selectedStages request condition order) : stage.keepsFields = true := by
  rw [selectedStages, List.mem_append, List.mem_append, List.mem_singleton] at hstage
  rcases hstage with (hshared | rfl) | hcut
  · exact keepsFields_of_mem_sharedStages hshared
  · rfl
  · exact (plain_of_mem_cutStages hcut).1

theorem lookupLabels_selectedStages : lookupLabels (t.selectedStages request condition order) =
    lookupFields (t.joinsOf Joins.defaultStem request.pagePaths) := by
  have hnone : lookupLabels (cutStages request.paging) = [] :=
    List.filterMap_eq_nil_iff.2 fun stage hstage => (plain_of_mem_cutStages hstage).2.2
  simp only [selectedStages, lookupLabels_append, lookupLabels_sharedStages, hnone,
    List.append_nil]
  exact List.append_nil _

end Selected

/-- Totals group after all lookups. -/
theorem totals_eq_grouped {a : Aggregate} {condition : Option Filter} {q : TotalsQuery}
    (htotals : t.totals (t.sharedStages request condition) a = .ok (some q)) :
    ∃ groups fields shaping,
      a.groupBy.mapM (fun path => do
        return (path.label, ← t.field totalsStem Param.groupBy path)) = .ok groups ∧
      q.pipeline = t.sharedStages request condition ++ (lookups (t.joinsOf totalsStem a.paths) ++
        unwindStages (t.joinsOf totalsStem a.paths)) ++ .group groups fields :: shaping ∧
      lookupLabels (.group groups fields :: shaping) = [] := by
  obtain ⟨groups, arguments, hgroups, _, hpipeline⟩ := totals_eq_some htotals
  dsimp only at hpipeline
  rw [addPaths_noJoins] at hpipeline
  refine ⟨groups, _, _, hgroups, hpipeline, ?_⟩
  exact lookupLabels_totalsStages _ _ _ _

section Loaded

/-- The relations that are loaded belong to the listed resource. -/
theorem mem_of_mem_loaded {hop : Hop} (hhop : hop ∈ t.loaded request) :
    hop.relation ∈ t.resource.relations := by
  unfold loaded at hhop
  split at hhop
  · rename_i relations hfetched
    obtain ⟨relation, hrelation, htarget⟩ := List.mem_filterMap.1 hhop
    obtain ⟨target, _, rfl⟩ := Option.map_eq_some_iff.1 htarget
    exact ((Resource.mem_of_fetched hfetched relation).1 (List.mem_filter.1 hrelation).1).mem
  · cases hhop

/-- The relations that are loaded have different names. -/
theorem nodup_loaded (hrelations : (t.resource.relations.map (·.name)).Nodup)
    (hfetch : request.fetch.IsDistinct) : ((t.loaded request).map (·.relation.name)).Nodup := by
  unfold loaded
  split
  · rename_i relations hfetched
    have hnodup := Resource.nodup_fetched hrelations hfetch hfetched
    rw [List.Nodup, List.pairwise_map] at hnodup ⊢
    refine (hnodup.filter _).filterMap _ fun relation other hne hop hhop hop' hhop' => ?_
    obtain ⟨_, _, rfl⟩ := Option.map_eq_some_iff.1 hhop
    obtain ⟨_, _, rfl⟩ := Option.map_eq_some_iff.1 hhop'
    exact hne
  · exact .nil

theorem lookupLabels_loadStages (hops : List Hop) :
    lookupLabels (hops.flatMap loadStages) = hops.map (·.relation.name) := by
  induction hops with
  | nil => rfl
  | cons hop hops ih =>
      rw [List.flatMap_cons, lookupLabels_append, ih, loadStages, lookupLabels_lookupStages]
      rfl

/-- A loaded relation is looked up from its local key, under its name. -/
theorem mentions_loadStages {hop : Hop} {stage : Stage} (hstage : stage ∈ loadStages hop) :
    ∀ name ∈ stage.mentions ++ stage.label?.toList,
      name = hop.relation.localKey ∨ name = hop.relation.name := by
  unfold loadStages lookupStages at hstage
  dsimp only at hstage
  split at hstage
  · rw [List.mem_singleton.1 hstage]
    simp [Stage.mentions, Stage.label?]
  · simp only [List.mem_cons, List.not_mem_nil, or_false] at hstage
    rcases hstage with rfl | rfl <;> simp [Stage.mentions, Stage.label?]

end Loaded

section Scope

variable (hnames : ∀ entry ∈ t.registry.entries, LeavesLabels entry.resource)
  (hresource : LeavesLabels t.resource)

include hnames hresource

theorem wellScoped_joinsOf (stem : String) (paths : List Path) :
    WellScoped labels (lookups (t.joinsOf stem paths)) := by
  refine wellScoped_lookups (t.registry.isOrdered_routesUsed _ _) fun route hroute hop hhop => ?_
  obtain ⟨_, path, _, hbegins⟩ := Registry.mem_routesUsed.1 hroute
  exact not_isLabelled_of_walk hnames hresource (hbegins.subset hhop)

/-- The filter is in scope after the lookups of its paths. -/
theorem wellScoped_sharedStages (hoperands : t.OperandsNameNoLabel request)
    {condition : Option Filter}
    (hcondition : request.filter.mapM (t.condition Joins.defaultStem) = .ok condition) :
    WellScoped [] (t.sharedStages request condition) := by
  rw [sharedStages, wellScoped_append,
    labelsAfter_of_keepsFields fun _ => keepsFields_of_mem_lookups, lookupLabels_lookups]
  refine ⟨wellScoped_joinsOf hnames hresource _ _, ?_⟩
  cases condition with
  | none => trivial
  | some filter =>
      cases hfilter : request.filter with
      | none =>
          rw [hfilter] at hcondition
          cases hcondition
      | some f =>
          rw [hfilter] at hcondition
          obtain ⟨found, hfound, hsome⟩ := Result.bind_eq_ok.1 hcondition
          cases hsome
          refine ⟨inScope_condition hnames hresource (fun path hpath => ?_) (fun c hc => ?_) hfound,
            trivial⟩
          · rw [Request.pagePaths, hfilter]
            exact List.mem_append_left _ hpath
          · exact hoperands c (request.mem_comparisons.2 ⟨f, hfilter, hc⟩)

/-- A sort is in scope after the lookups of its paths. -/
theorem inScope_order {order : List (String × Direction)}
    (horder : t.order request.order = .ok order) :
    ∀ name ∈ order.map (·.1),
      InScope (lookupFields (t.joinsOf Joins.defaultStem request.pagePaths)) name := by
  obtain ⟨keys, hkeys, hpure⟩ := Result.bind_eq_ok.1 horder
  cases hpure
  intro name hname
  have hkey := mem_of_mem_sortKeys hname
  split at hkey
  · rw [List.map_map] at hkey
    obtain ⟨key, hmem, rfl⟩ := List.mem_map.1 hkey
    exact .of_plain (hresource.primaryKey key hmem)
  · obtain ⟨key, hmem, rfl⟩ := List.mem_map.1 hkey
    obtain ⟨item, hitem, hfound⟩ := Result.mem_of_mapM_eq_ok hkeys hmem
    obtain ⟨field, hfield, hpure⟩ := Result.bind_eq_ok.1 hfound
    cases hpure
    obtain ⟨located, hlocate, hpure⟩ := Result.bind_eq_ok.1 hfield
    cases hpure
    refine inScope_fieldOf hnames hresource ?_ hlocate
    exact List.mem_append_right _ (List.mem_map_of_mem hitem)

omit hnames in
/-- Nothing that is loaded is named like a label. -/
theorem not_isLabelled_loaded {stage : Stage}
    (hstage : stage ∈ (t.loaded request).flatMap loadStages) :
    ∀ name ∈ stage.mentions ++ stage.label?.toList, ¬ IsLabelled name := by
  intro name hname
  obtain ⟨hop, hhop, hstage⟩ := List.mem_flatMap.1 hstage
  obtain ⟨hplain, hkey⟩ := hresource.relations _ (mem_of_mem_loaded hhop)
  rcases mentions_loadStages hstage name hname with rfl | rfl
  · exact hkey
  · exact hplain

section Page

variable {condition : Option Filter} {order : List (String × Direction)}

/-- What a page shows is selected after the lookups of filter and order. -/
theorem wellScoped_selectedStages (hoperands : t.OperandsNameNoLabel request)
    (hcondition : request.filter.mapM (t.condition Joins.defaultStem) = .ok condition)
    (horder : t.order request.order = .ok order) :
    WellScoped [] (t.selectedStages request condition order) := by
  simp only [selectedStages, wellScoped_append, List.append_assoc]
  refine ⟨wellScoped_sharedStages hnames hresource hoperands hcondition, ⟨fun name hname => ?_,
    trivial⟩, wellScoped_of_plain fun stage hstage => (plain_of_mem_cutStages hstage).2.1⟩
  rw [labelsAfter_of_keepsFields fun _ => keepsFields_of_mem_sharedStages,
    lookupLabels_sharedStages]
  exact inScope_order hnames hresource horder name hname

/-- All of a page is well scoped. -/
theorem page_wellScoped (hoperands : t.OperandsNameNoLabel request)
    (hcondition : request.filter.mapM (t.condition Joins.defaultStem) = .ok condition)
    (horder : t.order request.order = .ok order) :
    WellScoped [] (t.pageOf request condition order) := by
  refine wellScoped_append.2 ⟨wellScoped_append.2
    ⟨wellScoped_selectedStages hnames hresource hoperands hcondition horder, ?_⟩, ?_⟩
  · exact wellScoped_of_plain fun stage hstage => (plain_of_mem_unsetStages hstage).1
  · exact wellScoped_of_plain fun stage hstage name hname =>
      not_isLabelled_loaded hresource hstage name (List.mem_append_left _ hname)

omit hnames in
/-- A page looks up nothing twice under a label: what it loads has names of its own. -/
theorem nodup_page (hrelations : (t.resource.relations.map (·.name)).Nodup)
    (hfetch : request.fetch.IsDistinct) (hwritten : ∀ path ∈ request.pagePaths, path.IsWritten) :
    (lookupLabels (t.pageOf request condition order)).Nodup := by
  have hnone : lookupLabels (unsetStages (lookupFields (t.joinsOf Joins.defaultStem
      request.pagePaths))) = [] :=
    List.filterMap_eq_nil_iff.2 fun stage hstage => (plain_of_mem_unsetStages hstage).2
  rw [pageOf, lookupLabels_append, lookupLabels_append, lookupLabels_selectedStages, hnone,
    lookupLabels_loadStages, List.append_nil]
  refine List.nodup_append.2 ⟨nodup_lookupFields hwritten, nodup_loaded hrelations hfetch, ?_⟩
  intro label hlabel name hname heq
  obtain ⟨hop, hhop, rfl⟩ := List.mem_map.1 hname
  exact (hresource.relations _ (mem_of_mem_loaded hhop)).1
    (heq ▸ isLabelled_of_mem_lookupFields List.mem_cons_self hlabel)

omit hnames in
/-- A page takes the labels of its lookups away again. -/
theorem page_removesLabels : RemovesLabels (t.pageOf request condition order) := by
  refine ⟨t.selectedStages request condition order, (t.loaded request).flatMap loadStages, ?_,
    fun _ => keepsFields_of_mem_selectedStages, fun stage hstage => ?_, ?_⟩
  · rw [lookupLabels_selectedStages]
    rfl
  · obtain ⟨hop, _, hstage⟩ := List.mem_flatMap.1 hstage
    exact ⟨_, _, _, _, hstage⟩
  · intro stage hstage field hfield label hlabel hwithin
    rw [lookupLabels_selectedStages] at hlabel
    have hlabelled := isLabelled_of_mem_lookupFields List.mem_cons_self hlabel
    exact not_isLabelled_loaded hresource hstage field hfield
      (isLabelled_of_within hlabelled hwithin)

end Page

/-- The field of a path of totals is in scope after their lookups. -/
theorem inScope_field {a : Aggregate} {param : String} {path : Path} (hpath : path ∈ a.paths)
    {field : String} (hfound : t.field totalsStem param path = .ok field) :
    InScope (lookupFields (t.joinsOf totalsStem a.paths)) field := by
  obtain ⟨located, hlocate, hpure⟩ := Result.bind_eq_ok.1 hfound
  cases hpure
  exact inScope_fieldOf hnames hresource hpath hlocate

theorem inScope_dimensions {a : Aggregate} {dimensions : List (String × String)}
    (hdimensions : a.groupBy.mapM (fun path => do
      return (path.label, ← t.field totalsStem Param.groupBy path)) = .ok dimensions) :
    ∀ d ∈ dimensions, InScope (lookupFields (t.joinsOf totalsStem a.paths)) d.2 := by
  intro d hd
  obtain ⟨path, hpath, hfound⟩ := Result.mem_of_mapM_eq_ok hdimensions hd
  obtain ⟨field, hfield, hpure⟩ := Result.bind_eq_ok.1 hfound
  cases hpure
  exact inScope_field hnames hresource (List.mem_append_left _ hpath) hfield

theorem inScope_arguments {a : Aggregate} {arguments : List (Metric × Option String)}
    (harguments : a.metrics.mapM t.metricField = .ok arguments) :
    ∀ found ∈ arguments, ∀ field ∈ found.2,
      InScope (lookupFields (t.joinsOf totalsStem a.paths)) field := by
  intro found hmem field hread
  obtain ⟨m, hm, hfound⟩ := Result.mem_of_mapM_eq_ok harguments hmem
  obtain ⟨argument, hargument, hpure⟩ := Result.bind_eq_ok.1 hfound
  cases hpure
  cases hpath : m.path with
  | none =>
      rw [hpath] at hargument
      cases hargument
      cases hread
  | some path =>
      rw [hpath] at hargument
      obtain ⟨located, hlocated, hsome⟩ := Result.bind_eq_ok.1 hargument
      cases hsome
      cases hread
      have hmetric : path ∈ a.paths :=
        List.mem_append_right _ (List.mem_filterMap.2 ⟨m, hm, hpath⟩)
      exact inScope_field hnames hresource hmetric hlocated

section Totals

variable {condition : Option Filter} {q : TotalsQuery}
  (htotals : t.totals (t.sharedStages request condition) request.aggregate = .ok (some q))

include htotals

/-- The groups and metrics of totals are in scope after their lookups, and what follows the groups
mentions nothing but them. -/
theorem totals_wellScoped (hoperands : t.OperandsNameNoLabel request)
    (hcondition : request.filter.mapM (t.condition Joins.defaultStem) = .ok condition) :
    WellScoped [] q.pipeline := by
  obtain ⟨dimensions, arguments, hdimensions, harguments, hpipeline⟩ := totals_eq_some htotals
  dsimp only at hpipeline
  rw [addPaths_noJoins] at hpipeline
  have hunwinds := scoped_unwindStages (t.joinsOf totalsStem request.aggregate.paths)
  have hlater {field : String}
      (hscope : InScope (lookupFields (t.joinsOf totalsStem request.aggregate.paths)) field) :
      InScope ([] ++ lookupLabels (t.sharedStages request condition) ++
        lookupFields (t.joinsOf totalsStem request.aggregate.paths)) field :=
    hscope.mono (List.subset_append_right _ _)
  rw [hpipeline]
  simp only [wellScoped_append, List.append_assoc]
  rw [labelsAfter_of_keepsFields fun _ => keepsFields_of_mem_sharedStages,
    labelsAfter_of_keepsFields fun _ => keepsFields_of_mem_lookups,
    labelsAfter_of_keepsFields fun stage hstage => (hunwinds stage hstage).1,
    lookupLabels_lookups, lookupLabels_unwindStages, List.append_nil]
  refine ⟨wellScoped_sharedStages hnames hresource hoperands hcondition,
    wellScoped_joinsOf hnames hresource _ _, ?_, ?_⟩
  · exact wellScoped_of_inScope (fun stage hstage => (hunwinds stage hstage).1)
      fun stage hstage field hfield => hlater ((hunwinds stage hstage).2.2 field hfield)
  · refine wellScoped_totalsStages _ (fun d hd => hlater ?_) (fun field hmem => ?_) _
    · exact inScope_dimensions hnames hresource hdimensions d hd
    · obtain ⟨found, hfound, rfl⟩ := List.mem_map.1 hmem
      refine ⟨fun name hname => ?_, not_isLabelled_metric found.1⟩
      rcases mentions_accumulator _ _ _ name hname with hread | rfl
      · exact hlater (inScope_arguments hnames hresource harguments found hfound name hread)
      · exact .of_plain (by decide)

omit hnames hresource in
/-- Totals look up nothing twice under a label: their own labels have another stem. -/
theorem nodup_totals (hpage : ∀ path ∈ request.pagePaths, path.IsWritten)
    (htotalled : ∀ path ∈ request.aggregate.paths, path.IsWritten) :
    (lookupLabels q.pipeline).Nodup := by
  obtain ⟨groups, fields, shaping, _, hpipeline, hshaping⟩ := totals_eq_grouped htotals
  rw [hpipeline, lookupLabels_append, hshaping, lookupLabels_append, lookupLabels_append,
    lookupLabels_sharedStages, lookupLabels_lookups, lookupLabels_unwindStages, List.append_nil,
    List.append_nil]
  refine List.nodup_append.2 ⟨nodup_lookupFields hpage, nodup_lookupFields htotalled, ?_⟩
  intro label hlabel label' hlabel' heq
  rw [lookupFields_eq_map] at hlabel hlabel'
  obtain ⟨route, _, rfl⟩ := List.mem_map.1 hlabel
  obtain ⟨other, _, rfl⟩ := List.mem_map.1 hlabel'
  exact Route.aliasName_ne heq

end Totals

end Scope

/-- Where no column, key or relation is named like a label, and no operand names a field that begins
like one, the pipelines of a request that was read are well scoped: every stage mentions a field
under a label only after the lookup that adds just this label, and no two lookups of a pipeline add
the same one. A page takes the labels of its lookups away again, once it is sorted and cut. -/
theorem pipelines_wellScoped {options : Options} {entries : List Entry} {params : Params}
    {query : Query} (hbuild : Registry.build options entries = .ok t.registry)
    (hlisted : t.resource ∈ t.registry.entries.map (·.resource))
    (hnames : ∀ entry ∈ t.registry.entries, LeavesLabels entry.resource)
    (hread : Request.ofParams params t.resource options = .ok request)
    (hoperands : t.OperandsNameNoLabel request) (hcompile : t.compile request = .ok query) :
    (∀ stages ∈ query.pipelines, WellScoped [] stages ∧ (lookupLabels stages).Nodup) ∧
      RemovesLabels query.pipeline := by
  obtain ⟨entry, hentry, hresource⟩ := List.mem_map.1 hlisted
  have hleaves : LeavesLabels t.resource := hresource ▸ hnames entry hentry
  have hrelations : (t.resource.relations.map (·.name)).Nodup := by
    obtain ⟨hentries, hchecked, _⟩ := Registry.build_eq_ok hbuild
    rw [hentries] at hentry
    exact hresource ▸ Resource.nodup_relations (Registry.check_of_mem hchecked entry hentry)
  have hwritten := Request.isWritten_ofParams hread
  have hpage : ∀ path ∈ request.pagePaths, path.IsWritten := by
    intro path hpath
    rcases List.mem_append.1 hpath with hfilter | horder
    · exact hwritten path (request.path_mem_of_filter hfilter)
    · obtain ⟨item, hitem, rfl⟩ := List.mem_map.1 horder
      exact hwritten _ (request.path_mem_of_order hitem)
  have haggregate : ∀ path ∈ request.aggregate.paths, path.IsWritten := fun path hpath =>
    hwritten path (request.path_mem_of_totals hpath)
  obtain ⟨condition, order, hcondition, horder, htotals, -, hpipeline, hcount⟩ :=
    compile_eq_shared hcompile
  have hpageOf : query.pipeline = t.pageOf request condition order := hpipeline
  have hremoves : RemovesLabels query.pipeline := hpageOf ▸ page_removesLabels hleaves
  refine ⟨fun stages hmem => ?_, hremoves⟩
  rcases List.mem_cons.1 hmem with rfl | hmem
  · rw [hpageOf]
    exact ⟨page_wellScoped hnames hleaves hoperands hcondition horder,
      nodup_page hleaves hrelations (Request.fetch_ofParams hread) hpage⟩
  · rcases List.mem_append.1 hmem with hcounted | htotalled
    · rw [hcount, Option.mem_toList] at hcounted
      split at hcounted <;> cases hcounted
      rw [wellScoped_append, lookupLabels_append, lookupLabels_sharedStages]
      refine ⟨⟨wellScoped_sharedStages hnames hleaves hoperands hcondition, List.forall_mem_nil _,
        trivial⟩, ?_⟩
      exact (List.append_nil (lookupFields _)).symm ▸ nodup_lookupFields hpage
    · obtain ⟨q, hq, rfl⟩ := List.mem_map.1 htotalled
      rw [Option.mem_toList.1 hq] at htotals
      exact ⟨totals_wellScoped hnames hleaves htotals hoperands hcondition,
        nodup_totals htotals hpage haggregate⟩

end Target

namespace Magazine

/-- The magazine with the functions of every document store, from one of its resources. -/
def listing (resource : Resource) : Target where
  functions := Backend.documentFunctions
  registry := { entries := [article, author, team, review].map (⟨·, .documentWith []⟩) }
  resource := resource

theorem build_listing (resource : Resource) :
    Registry.build {} (listing resource).registry.entries = .ok (listing resource).registry := rfl

theorem leavesLabels_listing (resource : Resource) :
    ∀ entry ∈ (listing resource).registry.entries, LeavesLabels entry.resource := by
  simp only [listing, List.map_cons, List.map_nil, List.forall_mem_cons, List.not_mem_nil,
    false_imp_iff, implies_true, and_true]
  exact ⟨⟨by decide, by decide, by decide⟩, ⟨by decide, by decide, by decide⟩,
    ⟨by decide, by decide, by decide⟩, ⟨by decide, by decide, by decide⟩⟩

/-- A comparison of a city in small letters with a text. -/
def cityIs (relations : List String) (text : String) : Comparison where
  param := (Path.mk relations "city").label ++ "__func__lower__exact"
  path := ⟨relations, "city"⟩
  operator := .function
  function := some ⟨["lower"], some .exact⟩
  value := .string text

/-- Articles from a city, by the team of their author, with their author, and how many there are for
each verdict. -/
def fromOslo : Request where
  filter := some (.comparison (cityIs ["author"] "oslo"))
  order := [⟨⟨["author", "team"], "name"⟩, .ascending⟩]
  paging := { limit := some 10, wantTotal := true }
  aggregate := { metrics := [⟨.count, none⟩], groupBy := [⟨["reviews"], "verdict"⟩] }
  fetch := .named ["author"]

/-- Page, count and totals look up the same for filter and order. The page loads the author, once
these labels are gone, and the totals look up the reviews. -/
theorem pipelines_wellScoped_fromOslo :
    ∃ query, (listing article).compile fromOslo = .ok query ∧
      query.pipelines.map lookupLabels =
        [["rel_author", "rel_author__team", "author"], ["rel_author", "rel_author__team"],
          ["rel_author", "rel_author__team", "totals_reviews"]] ∧
      (∀ stages ∈ query.pipelines, WellScoped [] stages) ∧ RemovesLabels query.pipeline := by
  have hread : Request.ofParams ⟨[("author__city__func__lower__exact", "oslo"),
      ("order", "author__team__name"), ("limit", "10"), ("total_count", "true"),
      ("relations", "author"), ("group_by", "reviews__verdict")]⟩ article {} = .ok fromOslo := rfl
  have hoperands : (listing article).OperandsNameNoLabel fromOslo := by
    intro c hc located operand hlocate hoperand
    obtain rfl : c = cityIs ["author"] "oslo" := List.mem_singleton.1 hc
    cases hlocate
    cases hoperand
    show ∀ s ∈ [Scalar.text "oslo"], NamesNoLabel s.toJson
    decide
  obtain ⟨hscoped, hremoves⟩ := Target.pipelines_wellScoped (build_listing article)
    List.mem_cons_self (leavesLabels_listing article) hread hoperands
    (show (listing article).compile fromOslo = _ from rfl)
  exact ⟨_, rfl, rfl, fun stages hstages => (hscoped stages hstages).1, hremoves⟩

/-- Authors from a city that is named like a field of their team. -/
def fromTeam : Request where
  filter := some (.comparison (cityIs [] "$rel_team.name"))

/-- The filter that compares the city in small letters with something. -/
def cityFilter (e : Expr) : Stage :=
  .keep (.expr (.apply "$eq" [.apply "$toLower" [.field "city"], e]))

/-- A city that is compared after a chain may name a field of a team, which nothing looks up. The
stage is written like one that compares with this field. -/
theorem filter_names_label_fromTeam :
    Request.ofParams ⟨[("city__func__lower__exact", "$rel_team.name")]⟩ author {} = .ok fromTeam ∧
      Registry.build {} (listing author).registry.entries = .ok (listing author).registry ∧
      (∀ entry ∈ (listing author).registry.entries, LeavesLabels entry.resource) ∧
      fromTeam.validate (listing author).registry author = .ok () ∧
      ∃ query filter, (listing author).compile fromTeam = .ok query ∧
        query.pipeline = [filter, .sort [("id", .ascending)]] ∧
        filter.toJson = (cityFilter (.field "rel_team.name")).toJson ∧
        ¬ WellScoped [] query.pipeline := by
  refine ⟨rfl, rfl, leavesLabels_listing author, rfl, _, _, rfl, rfl, rfl, fun hscoped => ?_⟩
  have hlabelled : IsLabelled "rel_team.name" := by decide
  obtain ⟨label, hlabel, _⟩ := hscoped.1 "rel_team.name" (by decide) hlabelled
  cases hlabel

end Magazine

end Listing.Document

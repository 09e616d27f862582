/-
# Queries of one store

A compiled query runs on the store of the resource that is listed, but mentions tables of other
resources as well: those that its paths walk to and those that are loaded with its rows. All of them
have to be in that store.

A registry is checked one relation at a time: both ends belong to the same family of stores. As
every chain of relations starts at the listed resource, the family is the same for everything that a
query mentions. The dialect is not checked, and it is the same for everything exactly if it is the
same at both ends of every reference.
-/
import Listing.Proofs.SelectedRelations
import Listing.Proofs.StatementScope

namespace Listing

/-- A request needs rows of the target of a reference: the reference is on one of its paths, or is
selected to be loaded. -/
inductive Request.Follows (request : Request) (registry : Registry) (resource : Resource) :
    Relation → Prop
  | walked {path : Path} {hop : Hop} (mem : path ∈ request.paths)
      (walks : hop ∈ (registry.walk resource path.relations).1)
      (reference : hop.relation.embedded = false) : Follows request registry resource hop.relation
  | selected {relation : Relation} (selects : request.fetch.Selects resource relation)
      (reference : relation.embedded = false) : Follows request registry resource relation

/-- A table that a request needs: the one that is listed, or that of a target of a reference. -/
def Request.NeedsTable (request : Request) (registry : Registry) (resource : Resource)
    (table : String) : Prop :=
  table = resource.storage ∨ ∃ relation target, request.Follows registry resource relation ∧
    registry.resource? relation.target = some target ∧ table = target.storage

namespace Sql

/-- The table from which a restriction selects keys. -/
def Restriction.keyTables : Restriction → List String
  | .keyAmong query => [query.table]
  | _ => []

/-- The tables of a select and of its select of keys. -/
def Select.tables (s : Select) : List String :=
  s.table :: (s.restriction.keyTables ++ s.allJoins.map (·.table))

/-- The tables of all statements of a query. -/
def Query.tables (query : Query) : List String :=
  query.selects.flatMap Select.tables ++ query.eager.map (·.table)

namespace Target

variable {t : Target} {request : Request} {query : Query}

/-- The paths of a compiled request cross no embedded relation. -/
theorem separate_of_compile (hcompile : t.compile request = .ok query) :
    ∀ path ∈ request.paths, ∀ hop ∈ t.routeOf path, hop.relation.embedded = false := by
  obtain ⟨selection, _, totals, _, hselection, horder, htotals, -, -⟩ :=
    compile_eq_ok_iff.1 hcompile
  intro path hpath
  rcases request.mem_paths.1 hpath with ⟨c, hc, rfl⟩ | ⟨item, hitem, rfl⟩ | hpath
  · obtain ⟨f, hf, hc⟩ := request.mem_comparisons.1 hc
    obtain ⟨condition, hcondition, _⟩ := selection_eq_ok hselection
    refine (conditions_isOver hcondition).2 c.path ?_
    rw [pathsOf, Option.mem_def.1 hf]
    exact List.mem_filterMap.2 ⟨_, Filter.mem_comparisons.1 hc, rfl⟩
  · obtain ⟨term, _, hterm⟩ := Result.mapM_eq_ok_mem horder hitem
    exact (orderTerm_eq_ok hterm).2.2
  · cases totals with
    | none =>
        have hempty : request.aggregate.isEmpty = true := by
          unfold Target.totals at htotals
          split at htotals
          · assumption
          · obtain ⟨_, _, htotals⟩ := Result.bind_eq_ok.1 htotals
            obtain ⟨_, _, htotals⟩ := Result.bind_eq_ok.1 htotals
            cases htotals
        rw [Aggregate.isEmpty, Bool.and_eq_true, List.isEmpty_iff, List.isEmpty_iff] at hempty
        simp [Aggregate.paths, hempty.1, hempty.2] at hpath
    | some q =>
        obtain ⟨dimensions, arguments, hdimensions, harguments, _⟩ := t.totals_eq_some htotals
        rcases List.mem_append.1 hpath with hgroup | hmetric
        · obtain ⟨_, _, hdimension⟩ := Result.mapM_eq_ok_mem hdimensions hgroup
          obtain ⟨column, hcolumn, _⟩ := Result.bind_eq_ok.1 hdimension
          exact (column_eq_ok hcolumn).1
        · exact separate_of_arguments harguments path hmetric

/-- A join needs the table of the last relation of its route. -/
theorem needsTable_of_isJoinOf
    (hseparate : ∀ path ∈ request.paths, ∀ hop ∈ t.routeOf path, hop.relation.embedded = false)
    {j : Join} (hj : t.IsJoinOf request.paths j) :
    request.NeedsTable t.registry t.resource j.table := by
  obtain ⟨stem, _, route, hroute, hjoin⟩ := hj
  obtain ⟨hop, hlast, rfl⟩ := Option.map_eq_some_iff.1 hjoin
  obtain ⟨_, path, hpath, hbegins⟩ := mem_routesUsed.1 hroute
  have hwalks : hop ∈ t.routeOf path := hbegins.subset (List.mem_of_getLast? hlast)
  exact .inr ⟨hop.relation, hop.target, .walked hpath hwalks (hseparate path hpath hop hwalks),
    (Registry.mem_walk hwalks).2, rfl⟩

/-- Ordering or ranking groups changes neither table nor restriction. -/
theorem tables_totalsStatement (grouped : Select) (dimensions metrics : List Labelled)
    (limit : Option Nat) :
    (totalsStatement grouped dimensions metrics limit).inner.tables = grouped.tables := by
  unfold totalsStatement
  split <;> rfl

/-- A select over the listed table, restricted as a selection says, needs what its joins need. -/
theorem needsTable_of_select {filter : Option Filter} {selection : Selection}
    (hselection : t.selection filter = .ok selection) (hfilter : pathsOf filter ⊆ request.paths)
    (hseparate : ∀ path ∈ request.paths, ∀ hop ∈ t.routeOf path, hop.relation.embedded = false)
    {s : Select} (hlisted : s.table = t.resource.storage)
    (hrestriction : s.restriction = selection.restriction)
    (hjoins : ∀ j ∈ s.joins, t.IsJoinOf request.paths j) :
    ∀ table ∈ s.tables, request.NeedsTable t.registry t.resource table := by
  have hkeys : ∀ table ∈ selection.restriction.keyTables, table = t.resource.storage := by
    obtain ⟨condition, _, rfl⟩ := selection_eq_ok hselection
    dsimp only [restrictionOf]
    split
    · simp [Restriction.keyTables]
    · cases condition <;> simp [Restriction.ofCondition, Restriction.keyTables]
  intro table htable
  rcases List.mem_cons.1 htable with rfl | htable
  · exact .inl hlisted
  · rcases List.mem_append.1 htable with hkey | hjoin
    · rw [hrestriction] at hkey
      exact .inl (hkeys table hkey)
    · obtain ⟨j, hj, rfl⟩ := List.mem_map.1 hjoin
      rcases List.mem_append.1 hj with hj | hj
      · exact needsTable_of_isJoinOf hseparate (hjoins j hj)
      · rw [hrestriction] at hj
        exact needsTable_of_isJoinOf hseparate ((isJoinOf_restriction hselection j hj).mono hfilter)

/-- The page, the count and the totals of a compiled request need tables for its paths. -/
theorem needsTable_of_mem_selects (hcompile : t.compile request = .ok query) :
    ∀ s ∈ query.selects, ∀ table ∈ s.tables,
      request.NeedsTable t.registry t.resource table := by
  have hseparate := separate_of_compile hcompile
  obtain ⟨selection, terms, totals, _, hselection, -, htotals, -, rfl⟩ :=
    compile_eq_ok_iff.1 hcompile
  have hfilter : pathsOf request.filter ⊆ request.paths := fun path hpath =>
    request.path_mem_of_filter hpath
  have hjoined : t.joinedPaths request.filter ⊆ request.paths :=
    List.Subset.trans (t.joinedPaths_subset _) hfilter
  have horder : request.order.map (·.path) ⊆ request.paths := fun path hpath => by
    obtain ⟨item, hitem, rfl⟩ := List.mem_map.1 hpath
    exact request.path_mem_of_order hitem
  have hselected : ∀ j ∈ selection.joins, t.IsJoinOf request.paths j := by
    rw [joins_selection hselection]
    exact fun j hj => (isJoinOf_joinsOf j hj).mono hjoined
  intro s hs
  rcases List.mem_cons.1 hs with rfl | hs
  · refine needsTable_of_select hselection hfilter hseparate rfl rfl fun j hj => ?_
    rw [page_joins terms hselection] at hj
    exact (isJoinOf_joinsOf j hj).mono (List.append_subset.2 ⟨hjoined, horder⟩)
  · rcases List.mem_append.1 hs with hcount | htotal
    · rw [Option.mem_toList] at hcount
      split at hcount <;> cases hcount
      exact needsTable_of_select hselection hfilter hseparate rfl rfl hselected
    · obtain ⟨q, hq, rfl⟩ := List.mem_map.1 htotal
      cases Option.mem_toList.1 hq
      obtain ⟨dimensions, arguments, _, _, rfl⟩ := t.totals_eq_some htotals
      rw [tables_totalsStatement]
      refine needsTable_of_select hselection hfilter hseparate rfl rfl fun j hj => ?_
      rw [grouped, joinsOf_noJoins] at hj
      rcases List.mem_append.1 hj with hfiltered | hadded
      · exact hselected j hfiltered
      · exact (isJoinOf_joins (by simp [stems]) j hadded).mono fun path hpath =>
          request.path_mem_of_totals hpath

/-- All tables of a query are needed for its request. -/
theorem needsTable_of_mem_tables (hcompile : t.compile request = .ok query) {table : String}
    (htable : table ∈ query.tables) : request.NeedsTable t.registry t.resource table := by
  rcases List.mem_append.1 htable with hselect | heager
  · obtain ⟨s, hs, htable⟩ := List.mem_flatMap.1 hselect
    exact needsTable_of_mem_selects hcompile s hs table htable
  · obtain ⟨_, _, _, eager, -, -, -, hloads, rfl⟩ := compile_eq_ok_iff.1 hcompile
    obtain ⟨load, hload, rfl⟩ := List.mem_map.1 heager
    obtain ⟨relations, hfetched, hmap⟩ := Result.bind_eq_ok.1 hloads
    obtain ⟨relation, hrelation, hload⟩ := Result.mem_of_mapM_eq_ok hmap hload
    obtain ⟨hreference, target, htarget, rfl⟩ := eagerLoad_eq_ok hload
    exact .inr ⟨relation, target,
      .selected ((Resource.mem_of_fetched hfetched relation).1 hrelation) hreference, htarget, rfl⟩

end Target
end Sql

namespace Document

/-- The collection that a stage looks up. -/
def Stage.collection? : Stage → Option String
  | .lookup collection .. => some collection
  | _ => none

/-- The collections of all pipelines of a query. -/
def Query.collections (query : Query) : List String :=
  query.collection :: query.pipelines.flatten.filterMap Stage.collection?

/-- A stage that adds no label looks up nothing. -/
theorem Stage.collection?_eq_none {stage : Stage} (hlabel : stage.label? = none) :
    stage.collection? = none := by
  cases stage <;> first | rfl | cases hlabel

/-- The lookups of a relation are in one collection. -/
theorem collection_of_mem_lookupStages {relation : Relation} {collection localField label : String}
    {stage : Stage} (hstage : stage ∈ lookupStages relation collection localField label)
    {found : String} (hfound : stage.collection? = some found) : found = collection := by
  rcases eq_of_mem_lookupStages hstage with rfl | rfl
  · exact (Option.some.inj hfound).symm
  · cases hfound

namespace Target

variable {t : Target} {request : Request} {query : Query}

/-- Lookups of paths are in tables that the request needs. -/
theorem needsTable_of_mem_lookups {stem : String} {paths : List Path}
    (hpaths : paths ⊆ request.paths) {stage : Stage}
    (hstage : stage ∈ lookups (t.joinsOf stem paths)) {found : String}
    (hfound : stage.collection? = some found) :
    request.NeedsTable t.registry t.resource found := by
  obtain ⟨route, hroute, hop, hlast, hreference, hstage⟩ := mem_lookups hstage
  obtain ⟨_, path, hpath, hbegins⟩ := Registry.mem_routesUsed.1 hroute
  have hwalks := hbegins.subset (List.mem_of_getLast? hlast)
  exact .inr ⟨hop.relation, hop.target, .walked (hpaths hpath) hwalks hreference,
    (Registry.mem_walk hwalks).2, collection_of_mem_lookupStages hstage hfound⟩

/-- The stages that page, count and totals begin with need the tables of filter and order. -/
theorem needsTable_of_mem_sharedStages {condition : Option Filter} {stage : Stage}
    (hstage : stage ∈ t.sharedStages request condition) {found : String}
    (hfound : stage.collection? = some found) :
    request.NeedsTable t.registry t.resource found := by
  rcases List.mem_append.1 hstage with hlookup | hkeep
  · refine needsTable_of_mem_lookups (fun path hpath => ?_) hlookup hfound
    rcases List.mem_append.1 hpath with hfilter | horder
    · exact request.path_mem_of_filter hfilter
    · obtain ⟨item, hitem, rfl⟩ := List.mem_map.1 horder
      exact request.path_mem_of_order hitem
  · obtain ⟨filter, _, rfl⟩ := List.mem_map.1 hkeep
    cases hfound

/-- The stages that load relations need the tables of those that are selected. -/
theorem needsTable_of_mem_loaded {stage : Stage}
    (hstage : stage ∈ (t.loaded request).flatMap loadStages) {found : String}
    (hfound : stage.collection? = some found) :
    request.NeedsTable t.registry t.resource found := by
  obtain ⟨hop, hhop, hstage⟩ := List.mem_flatMap.1 hstage
  unfold loaded at hhop
  split at hhop
  · rename_i relations hfetched
    obtain ⟨relation, hrelation, hmake⟩ := List.mem_filterMap.1 hhop
    obtain ⟨target, htarget, rfl⟩ := Option.map_eq_some_iff.1 hmake
    obtain ⟨hmem, hreference⟩ := List.mem_filter.1 hrelation
    exact .inr ⟨relation, target, .selected ((Resource.mem_of_fetched hfetched relation).1 hmem)
      (by simpa using hreference), htarget, collection_of_mem_lookupStages hstage hfound⟩
  · cases hhop

/-- All collections of a query are needed for its request. -/
theorem needsTable_of_mem_collections (hcompile : t.compile request = .ok query) {found : String}
    (hfound : found ∈ query.collections) : request.NeedsTable t.registry t.resource found := by
  obtain ⟨condition, order, -, -, htotals, hcollection, hpipeline, hcount⟩ :=
    compile_eq_shared hcompile
  rcases List.mem_cons.1 hfound with rfl | hfound
  · exact .inl hcollection
  · obtain ⟨stage, hstage, hfound⟩ := List.mem_filterMap.1 hfound
    obtain ⟨stages, hstages, hstage⟩ := List.mem_flatten.1 hstage
    have hnone (hlabel : stage.label? = none) :
        request.NeedsTable t.registry t.resource found := by
      rw [Stage.collection?_eq_none hlabel] at hfound
      cases hfound
    rcases List.mem_cons.1 hstages with rfl | hstages
    · rw [hpipeline] at hstage
      simp only [List.mem_append, List.mem_singleton] at hstage
      rcases hstage with (((hshared | rfl) | hcut) | hunset) | hload
      · exact needsTable_of_mem_sharedStages hshared hfound
      · cases hfound
      · exact hnone (plain_of_mem_cutStages hcut).2.2
      · exact hnone (plain_of_mem_unsetStages hunset).2
      · exact needsTable_of_mem_loaded hload hfound
    · rcases List.mem_append.1 hstages with hcounted | htotalled
      · rw [hcount, Option.mem_toList] at hcounted
        split at hcounted <;> cases hcounted
        rcases List.mem_append.1 hstage with hshared | hlast
        · exact needsTable_of_mem_sharedStages hshared hfound
        · rw [List.mem_singleton.1 hlast] at hfound
          cases hfound
      · obtain ⟨q, hq, rfl⟩ := List.mem_map.1 htotalled
        rw [Option.mem_toList.1 hq] at htotals
        obtain ⟨groups, fields, shaping, _, hgrouped, hlabels⟩ := totals_eq_grouped htotals
        rw [hgrouped] at hstage
        rcases List.mem_append.1 hstage with hstage | hstage
        · rcases List.mem_append.1 hstage with hshared | hadded
          · exact needsTable_of_mem_sharedStages hshared hfound
          · rcases List.mem_append.1 hadded with hlookup | hunwind
            · exact needsTable_of_mem_lookups (fun path hpath => request.path_mem_of_totals hpath)
                hlookup hfound
            · exact hnone (scoped_unwindStages _ stage hunwind).2.1
        · exact hnone (List.filterMap_eq_nil_iff.1 hlabels stage hstage)

end Target
end Document

/-- The tables, collections or indexes that a compiled query mentions. -/
def Compiled.tables : Compiled → List String
  | .relational query => query.tables
  | .document query => query.collections
  | .searchIndex query => [query.index]

/-- The dialect of a relational store. -/
def Backend.dialect? : Backend → Option Sql.Dialect
  | .relational dialect _ => some dialect
  | _ => none

/-- Stores of a family other than relational ones have no dialect. -/
theorem Backend.dialect?_eq_none {backend : Backend} (hkind : backend.kind ≠ .relational) :
    backend.dialect? = none := by
  cases backend with
  | relational dialect functions => exact absurd rfl hkind
  | document functions => rfl
  | searchIndex => rfl

namespace Registry

variable {registry : Registry}

/-- What both ends of some relations have in common is the same along every chain of them. -/
theorem eq_of_mem_walk {β : Type} (f : Entry → β) {p : Relation → Prop}
    (hstep : ∀ owner ∈ registry.entries, ∀ relation ∈ owner.resource.relations, p relation →
      ∀ target, registry.entry? relation.target = some target → f target = f owner)
    {e : Entry} (he : e ∈ registry.entries) {names : List String}
    (hwalk : ∀ hop ∈ (registry.walk e.resource names).1, p hop.relation) :
    ∀ hop ∈ (registry.walk e.resource names).1, ∀ target,
      registry.entry? hop.relation.target = some target → f target = f e := by
  induction names generalizing e with
  | nil => simp [walk]
  | cons name names ih =>
      rw [walk] at hwalk ⊢
      cases hhop : registry.hop? e.resource name with
      | none => simp
      | some first =>
          rw [hhop] at hwalk
          obtain ⟨relation, hrelation, hrest⟩ := Option.bind_eq_some_iff.1 hhop
          obtain ⟨resource, hresource, hmake⟩ := Option.bind_eq_some_iff.1 hrest
          cases hmake
          obtain ⟨next, hnext, rfl⟩ := Option.map_eq_some_iff.1 hresource
          obtain ⟨hfirst, hothers⟩ := List.forall_mem_cons.1 hwalk
          have hsame := hstep e he relation (List.mem_of_find?_eq_some hrelation) hfirst next hnext
          refine List.forall_mem_cons.2 ⟨fun target htarget => ?_,
            fun hop hmem target htarget => ?_⟩
          · rw [hnext, Option.some.injEq] at htarget
            rw [← htarget, hsame]
          · rw [ih (List.mem_of_find?_eq_some hnext) hothers hop hmem target htarget, hsame]

/-- A built registry joins only resources of one family of stores. -/
theorem kind_of_checkRelations (hchecked : registry.checkRelations = .ok ()) :
    ∀ owner ∈ registry.entries, ∀ relation ∈ owner.resource.relations,
      ∀ target, registry.entry? relation.target = some target →
        target.backend.kind = owner.backend.kind := by
  intro owner howner relation hrelation target htarget
  have hcheck := Result.forM_eq_ok.1 (Result.forM_eq_ok.1 hchecked owner howner) relation hrelation
  rw [checkRelation, htarget] at hcheck
  dsimp only at hcheck
  split at hcheck
  · assumption
  · cases hcheck

end Registry

namespace Entry

variable {e : Entry} {registry : Registry} {request : Request} {compiled : Compiled}

/-- The resources whose tables a request needs: the listed one, and targets of references that the
request follows. -/
def Uses (e : Entry) (registry : Registry) (request : Request) (owner : Entry) : Prop :=
  owner = e ∨ ∃ relation, request.Follows registry e.resource relation ∧
    registry.entry? relation.target = some owner

/-- A table that a request needs is that of a resource that it uses. -/
theorem exists_uses_of_needsTable {table : String}
    (hneeds : request.NeedsTable registry e.resource table) :
    ∃ owner, e.Uses registry request owner ∧ owner.resource.storage = table := by
  rcases hneeds with rfl | ⟨relation, target, hfollows, htarget, rfl⟩
  · exact ⟨e, .inl rfl, rfl⟩
  · obtain ⟨owner, howner, rfl⟩ := Option.map_eq_some_iff.1 htarget
    exact ⟨owner, .inr ⟨relation, hfollows, howner⟩, rfl⟩

/-- What both ends of some relations have in common, all resources have that a request uses, if it
goes through such relations only. -/
theorem eq_of_uses {β : Type} (f : Entry → β) {p : Relation → Prop}
    (hstep : ∀ owner ∈ registry.entries, ∀ relation ∈ owner.resource.relations, p relation →
      ∀ target, registry.entry? relation.target = some target → f target = f owner)
    (he : e ∈ registry.entries)
    (hpaths : ∀ path ∈ request.paths, ∀ hop ∈ (registry.walk e.resource path.relations).1,
      p hop.relation)
    (hreferences : ∀ relation, relation.embedded = false → p relation) {owner : Entry}
    (huses : e.Uses registry request owner) : f owner = f e := by
  rcases huses with rfl | ⟨relation, hfollows, howner⟩
  · rfl
  · cases hfollows with
    | walked hpath hwalks _ =>
        exact Registry.eq_of_mem_walk f hstep he (hpaths _ hpath) _ hwalks owner howner
    | selected hselects hreference =>
        exact hstep e he relation hselects.mem (hreferences relation hreference) owner howner

theorem compile_of_compileRequest (hcompile : e.compileRequest registry request = .ok compiled) :
    e.backend.compile registry e.resource request = .ok compiled := by
  obtain ⟨_, _, hcompile⟩ := Result.bind_eq_ok.1 hcompile
  exact hcompile

/-- A compiled query mentions only tables that its request needs. -/
theorem needsTable_of_mem_tables (hcompile : e.compileRequest registry request = .ok compiled)
    {table : String} (htable : table ∈ compiled.tables) :
    request.NeedsTable registry e.resource table := by
  replace hcompile := compile_of_compileRequest hcompile
  unfold Backend.compile at hcompile
  cases hbackend : e.backend with
  | relational dialect functions =>
      rw [hbackend] at hcompile
      obtain ⟨query, hquery, rfl⟩ := Result.map_eq_ok.1 hcompile
      exact Sql.Target.needsTable_of_mem_tables hquery htable
  | document functions =>
      rw [hbackend] at hcompile
      obtain ⟨query, hquery, rfl⟩ := Result.map_eq_ok.1 hcompile
      exact Document.Target.needsTable_of_mem_collections hquery htable
  | searchIndex =>
      rw [hbackend] at hcompile
      obtain ⟨query, hquery, rfl⟩ := Result.map_eq_ok.1 hcompile
      obtain ⟨_, _, hquery⟩ := Result.bind_eq_ok.1 hquery
      obtain ⟨_, _, hquery⟩ := Result.bind_eq_ok.1 hquery
      obtain ⟨_, _, hquery⟩ := Result.bind_eq_ok.1 hquery
      obtain ⟨_, _, hquery⟩ := Result.bind_eq_ok.1 hquery
      cases hquery
      exact .inl (List.mem_singleton.1 htable)

/-- The paths of a compiled relational request cross no embedded relation. -/
theorem separate_of_relational (hcompile : e.compileRequest registry request = .ok compiled)
    (hkind : e.backend.kind = .relational) : ∀ path ∈ request.paths,
      ∀ hop ∈ (registry.walk e.resource path.relations).1, hop.relation.embedded = false := by
  replace hcompile := compile_of_compileRequest hcompile
  cases hbackend : e.backend with
  | relational dialect functions =>
      rw [hbackend] at hcompile
      obtain ⟨query, hquery, _⟩ := Result.map_eq_ok.1 hcompile
      exact Sql.Target.separate_of_compile hquery
  | document functions => simp [hbackend, Backend.kind] at hkind
  | searchIndex => simp [hbackend, Backend.kind] at hkind

/-- A request that selects one relation. -/
def selecting (relation : Relation) : Request where
  fetch := .named [relation.name]

theorem fetched_selecting {resource : Resource} (hcheck : resource.check = .ok ())
    {relation : Relation} (hrelation : relation ∈ resource.relations) :
    resource.fetched (selecting relation).fetch = .ok [relation] := by
  rw [selecting, Resource.fetched, List.mapM_cons, Resource.relation?_of_mem hcheck hrelation]
  rfl

/-- A request for one relation of a resource is valid. -/
theorem validate_selecting {resource : Resource} {relation : Relation}
    (hfetched : resource.fetched (selecting relation).fetch = .ok [relation]) :
    (selecting relation).validate registry resource = .ok () :=
  Result.bind_eq_ok.2 ⟨(), rfl, Result.bind_eq_ok.2 ⟨(), rfl, Result.bind_eq_ok.2 ⟨(), rfl,
    Result.bind_eq_ok.2 ⟨(), rfl, Result.bind_eq_ok.2 ⟨[relation], hfetched, rfl⟩⟩⟩⟩⟩

/-- A request for a reference is compiled to a query that loads from the table of the target. -/
theorem compile_selecting {t : Sql.Target} {relation : Relation}
    (hfetched : t.resource.fetched (selecting relation).fetch = .ok [relation])
    (hreference : relation.embedded = false) {target : Resource}
    (htarget : t.registry.resource? relation.target = some target) :
    ∃ query, t.compile (selecting relation) = .ok query ∧ target.storage ∈ query.tables := by
  obtain ⟨load, hload, htable⟩ : ∃ load,
      t.eagerLoad (Sql.eagerStrategy t.registry.options none) relation = .ok load ∧
        load.table = target.storage := by
    rw [Sql.Target.eagerLoad, if_neg (by simp [hreference]), htarget]
    exact ⟨_, rfl, rfl⟩
  have hloads : t.eagerLoads (selecting relation) = .ok [load] := by
    refine Result.bind_eq_ok.2 ⟨[relation], hfetched, ?_⟩
    rw [List.mapM_cons]
    exact Result.bind_eq_ok.2 ⟨load, hload, rfl⟩
  refine ⟨_, Result.bind_eq_ok.2 ⟨_, rfl, Result.bind_eq_ok.2 ⟨_, rfl, Result.bind_eq_ok.2 ⟨_, rfl,
    Result.bind_eq_ok.2 ⟨[load], hloads, rfl⟩⟩⟩⟩, ?_⟩
  exact List.mem_append_right _ (List.mem_singleton.2 htable.symm)

/-- A relational store compiles a request that selects a reference, to a query with the table of the
target. -/
theorem exists_compileRequest_selecting (hcheck : e.resource.check = .ok ())
    (hkind : e.backend.kind = .relational) {relation : Relation}
    (hrelation : relation ∈ e.resource.relations) (hreference : relation.embedded = false)
    {target : Entry} (htarget : registry.entry? relation.target = some target) :
    ∃ compiled, e.compileRequest registry (selecting relation) = .ok compiled ∧
      e.Uses registry (selecting relation) target ∧ target.resource.storage ∈ compiled.tables := by
  have hfetched := fetched_selecting hcheck hrelation
  have hselects : (selecting relation).fetch.Selects e.resource relation :=
    (Resource.mem_of_fetched hfetched relation).1 List.mem_cons_self
  have huses : e.Uses registry (selecting relation) target :=
    .inr ⟨relation, .selected hselects hreference, htarget⟩
  have hresource : registry.resource? relation.target = some target.resource := by
    rw [Registry.resource?, htarget]
    rfl
  rw [compileRequest_of_validate (validate_selecting hfetched)]
  cases hbackend : e.backend with
  | relational dialect functions =>
      let t : Sql.Target := { dialect, functions, registry, resource := e.resource }
      obtain ⟨query, hquery, htable⟩ := compile_selecting (t := t) hfetched hreference hresource
      exact ⟨.relational query, Result.map_eq_ok.2 ⟨query, hquery, rfl⟩, huses, htable⟩
  | document functions => simp [hbackend, Backend.kind] at hkind
  | searchIndex => simp [hbackend, Backend.kind] at hkind

/-- In a built registry every table of a compiled query is that of a resource that the request uses,
and all of these resources are in one family of stores. For all requests they are in stores of one
dialect exactly if every reference leads to a store of the dialect of its owner. -/
theorem tables_of_one_store_iff {options : Options} {entries : List Entry}
    (hbuild : Registry.build options entries = .ok registry) :
    (∀ e ∈ registry.entries, ∀ request compiled,
      e.compileRequest registry request = .ok compiled →
        (∀ table ∈ compiled.tables,
          ∃ owner, e.Uses registry request owner ∧ owner.resource.storage = table) ∧
        ∀ owner, e.Uses registry request owner → owner.backend.kind = e.backend.kind) ∧
    ((∀ e ∈ registry.entries, ∀ request compiled,
      e.compileRequest registry request = .ok compiled → ∀ owner, e.Uses registry request owner →
        owner.resource.storage ∈ compiled.tables → owner.backend.dialect? = e.backend.dialect?) ↔
      ∀ owner ∈ registry.entries, ∀ relation ∈ owner.resource.relations,
        relation.embedded = false → ∀ target, registry.entry? relation.target = some target →
          target.backend.dialect? = owner.backend.dialect?) := by
  obtain ⟨hentries, hchecks, hchecked⟩ := Registry.build_eq_ok hbuild
  have hstep := Registry.kind_of_checkRelations hchecked
  have hfamily : ∀ e ∈ registry.entries, ∀ request owner, e.Uses registry request owner →
      owner.backend.kind = e.backend.kind := fun e he request owner huses =>
    eq_of_uses (·.backend.kind) (p := fun _ => True)
      (fun owner howner relation hrelation _ => hstep owner howner relation hrelation) he
      (fun _ _ _ _ => trivial) (fun _ _ => trivial) huses
  refine ⟨fun e he request compiled hcompile => ⟨fun table htable => ?_, hfamily e he request⟩,
    ?_, ?_⟩
  · exact exists_uses_of_needsTable (needsTable_of_mem_tables hcompile htable)
  · intro hall owner howner relation hrelation hreference target htarget
    by_cases hkind : owner.backend.kind = .relational
    · obtain ⟨compiled, hcompile, huses, htable⟩ := exists_compileRequest_selecting
        (Registry.check_of_mem hchecks owner (hentries ▸ howner)) hkind hrelation hreference htarget
      exact hall owner howner _ compiled hcompile target huses htable
    · have hsame := hstep owner howner relation hrelation target htarget
      rw [Backend.dialect?_eq_none hkind, Backend.dialect?_eq_none (hsame ▸ hkind)]
  · intro hdialects e he request compiled hcompile owner huses _
    by_cases hkind : e.backend.kind = .relational
    · exact eq_of_uses (·.backend.dialect?) hdialects he (separate_of_relational hcompile hkind)
        (fun _ hreference => hreference) huses
    · have hsame := hfamily e he request owner huses
      rw [Backend.dialect?_eq_none hkind, Backend.dialect?_eq_none (hsame ▸ hkind)]

end Entry

namespace Market

/-- Products by category and categories by department. -/
def product : Resource where
  name := "product"
  storage := "products"
  attributes := [{ name := "name", kind := .string }]
  relations := [.toOne "category" "category" "category_id" "id"]

def category : Resource where
  name := "category"
  storage := "categories"
  attributes := [{ name := "name", kind := .string }]
  relations := [.toOne "department" "department" "department_id" "id"]

def department : Resource where
  name := "department"
  storage := "departments"
  attributes := [{ name := "name", kind := .string }]

/-- Products in a database of one dialect, and what they belong to in a database of another. -/
def entries (dialect other : Sql.Dialect) : List Entry :=
  [⟨product, .relational dialect []⟩, ⟨category, .relational other []⟩,
    ⟨department, .relational other []⟩]

def registry (dialect other : Sql.Dialect) : Registry where
  entries := entries dialect other

/-- A comparison of the name at the end of some relations. -/
def isNamed (relations : List String) (name : String) : Comparison where
  param := (Path.mk relations "name").label
  path := ⟨relations, "name"⟩
  operator := .exact
  function := none
  value := .string name

/-- Products of a department, with their categories. -/
def ofDepartment : Request where
  filter := some (.comparison (isNamed ["category", "department"] "Garden"))
  fetch := .named ["category"]

/-- In one database, all tables of products of a department are tables of that database. -/
theorem tables_of_one_store_ofDepartment :
    ∃ compiled, Entry.compileRequest ⟨product, .relational .postgres []⟩
        (registry .postgres .postgres) ofDepartment = .ok compiled ∧
      compiled.tables = ["products", "categories", "departments", "categories"] ∧
      ∀ owner, Entry.Uses ⟨product, .relational .postgres []⟩ (registry .postgres .postgres)
        ofDepartment owner → owner.resource.storage ∈ compiled.tables →
          owner.backend.dialect? = some .postgres := by
  have hbuild : Registry.build {} (entries .postgres .postgres) =
      .ok (registry .postgres .postgres) := rfl
  have hsame : ∀ entry ∈ (registry .postgres .postgres).entries,
      entry.backend = .relational .postgres [] := by
    simp [registry, entries]
  have hdialects := (Entry.tables_of_one_store_iff hbuild).2.2
    fun owner howner relation _ _ target htarget => by
      rw [hsame owner howner, hsame target (List.mem_of_find?_eq_some htarget)]
  have hall := hdialects ⟨product, .relational .postgres []⟩ List.mem_cons_self ofDepartment
  exact ⟨_, rfl, rfl, hall _ rfl⟩

/-- Products of a category. -/
def ofCategory : Request where
  filter := some (.comparison (isNamed ["category"] "Tools"))

/-- Products in one database may belong to categories in a database of another dialect, and are then
found by a statement for the former that joins a table of the latter. -/
theorem statement_joins_other_dialect :
    Registry.build {} (entries .postgres .mysql) = .ok (registry .postgres .mysql) ∧
    Entry.read ⟨product, .relational .postgres []⟩ (registry .postgres .mysql)
      ⟨[("category__name", "Tools")]⟩ = .ok ofCategory ∧
    ∃ query, Entry.compileRequest ⟨product, .relational .postgres []⟩
        (registry .postgres .mysql) ofCategory = .ok (.relational query) ∧
      query.dialect = .postgres ∧ query.page.joins.map (·.table) = ["categories"] ∧
      Entry.Uses ⟨product, .relational .postgres []⟩ (registry .postgres .mysql) ofCategory
        ⟨category, .relational .mysql []⟩ ∧
      "categories" ∈ query.tables ∧
      Backend.dialect? (.relational .mysql []) ≠ Backend.dialect? (.relational .postgres []) := by
  refine ⟨rfl, rfl, _, rfl, rfl, rfl, ?_, ?_, by decide⟩
  · have hpath : (⟨["category"], "name"⟩ : Path) ∈ ofCategory.paths := List.mem_singleton.2 rfl
    have hwalks : (⟨.toOne "category" "category" "category_id" "id", category⟩ : Hop) ∈
        ((registry .postgres .mysql).walk product ["category"]).1 := List.mem_singleton.2 rfl
    exact .inr ⟨_, .walked hpath hwalks rfl, rfl⟩
  · exact List.mem_cons_of_mem _ List.mem_cons_self

end Market
end Listing

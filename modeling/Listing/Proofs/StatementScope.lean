/-
# Statements are well scoped

A column of a select is written with a table in front: the listed table, or an alias under which the
same select joins another one. Page, count and totals share the joins of a filter, or move them into
a select of keys, and the totals add joins of their own. In each of these selects every column that
is mentioned belongs to a table that the select has, and every join refers to one before it.

No alias is introduced twice. Within one collection of routes that is because aliases tell routes
apart, and between the two collections of totals because their stems differ. The listed table may
still be called like an alias: its name is chosen by the schema.
-/
import Listing.Proofs.TotalsColumns

namespace Listing.Sql

/-- The joins of the select of keys of a restriction. -/
def Restriction.joins : Restriction → List Join
  | .keyAmong query => query.joins
  | _ => []

/-- A select, with its select of keys, mentions only tables that it has and introduces every alias
once. -/
structure Select.WellScoped (s : Select) : Prop where
  resolves : s.Resolves
  aliases : (s.joins.map (·.aliasName)).Nodup
  keyAliases : (s.restriction.joins.map (·.aliasName)).Nodup

/-- The select that a statement runs over tables. -/
def Statement.inner : Statement → Select
  | .select s => s
  | .ranked r => r.inner

/-- Around a select that ranks groups, only columns of that select are mentioned. -/
def Statement.OuterScoped : Statement → Prop
  | .select _ => True
  | .ranked r => r.rank ∈ r.inner.labels ∧ r.labels ⊆ r.inner.labels ∧
      ∀ term ∈ r.orderBy, ∃ label ∈ r.inner.labels, term.expr = .column r.aliasName label

/-- The joins of a select and of its select of keys. -/
def Select.allJoins (s : Select) : List Join := s.joins ++ s.restriction.joins

/-- The selects over tables of a query: the page, the count and the totals. -/
def Query.selects (query : Query) : List Select :=
  query.page :: (query.count.toList ++ query.totals.toList.map (·.statement.inner))

/-- A term of the order of groups stands for the label of a group or of a metric. -/
theorem label_of_mem_groupOrder {dimensions metrics : List Labelled} {expr : String → Expr}
    {term : OrderTerm} (hterm : term ∈ groupOrder dimensions metrics expr) :
    ∃ label ∈ (dimensions ++ metrics).map (·.1), term.expr = expr label := by
  unfold groupOrder at hterm
  split at hterm
  · cases hterm
  · rename_i innermost hlast
    have hlabel {column : Labelled} (hcolumn : column ∈ dimensions ++ metrics) :
        column.1 ∈ (dimensions ++ metrics).map (·.1) := List.mem_map_of_mem hcolumn
    simp only [List.mem_append, List.mem_map, List.mem_singleton] at hterm
    rcases hterm with (⟨d, hd, rfl⟩ | ⟨m, hm, rfl⟩) | rfl
    · exact ⟨d.1, hlabel (List.mem_append_left _ (List.dropLast_subset _ hd)), rfl⟩
    · exact ⟨m.1, hlabel (List.mem_append_right _ hm), rfl⟩
    · exact ⟨innermost.1, hlabel (List.mem_append_left _ (List.mem_of_getLast? hlast)), rfl⟩

/-- Ordering or ranking groups mentions what the select of the groups does. -/
theorem wellScoped_totalsStatement {grouped : Select} {dimensions metrics : List Labelled}
    (hgrouped : grouped.WellScoped)
    (hcolumns : grouped.columns =
      (dimensions ++ metrics).map fun column => .named column.2 column.1)
    (hunordered : grouped.orderBy = []) (limit : Option Nat) :
    (totalsStatement grouped dimensions metrics limit).inner.WellScoped ∧
      (totalsStatement grouped dimensions metrics limit).OuterScoped := by
  obtain ⟨⟨hjoins, hrestriction, hresolves, hgroupBy, _⟩, haliases, hkeys⟩ := hgrouped
  have hover : ∀ column ∈ dimensions ++ metrics, column.2.IsOver grouped.names := fun column hmem =>
    hresolves (.named column.2 column.1) (hcolumns ▸ List.mem_map_of_mem hmem)
  unfold totalsStatement
  split
  · rename_i n innermost _
    have hrank : (rankExpr dimensions.dropLast metrics).IsOver grouped.names :=
      (Expr.hereditary_isOver grouped.names).rankExpr trivial hover
    have hlabels : Select.labels { grouped with
        columns := grouped.columns ++ [.named (rankExpr dimensions.dropLast metrics) rankLabel] } =
          (dimensions ++ metrics).map (·.1) ++ [rankLabel] :=
      labels_labelled_append (congrArg (· ++ _) hcolumns)
    refine ⟨⟨⟨hjoins, hrestriction, fun column hcolumn => ?_, hgroupBy, ?_⟩, haliases, hkeys⟩, ?_⟩
    · rcases List.mem_append.1 hcolumn with hold | hnew
      · exact hresolves column hold
      · rw [List.mem_singleton.1 hnew]
        exact hrank
    · intro term hterm
      rw [show _ = [] from hunordered] at hterm
      cases hterm
    · refine ⟨?_, ?_, fun term hterm => ?_⟩
      · rw [hlabels]
        exact List.mem_append_right _ List.mem_cons_self
      · rw [hlabels]
        exact List.subset_append_left _ _
      · obtain ⟨label, hlabel, hexpr⟩ := label_of_mem_groupOrder hterm
        rw [hlabels]
        exact ⟨label, List.mem_append_left _ hlabel, hexpr⟩
  · refine ⟨⟨⟨hjoins, hrestriction, hresolves, hgroupBy, fun term hterm => ?_⟩, haliases, hkeys⟩,
      trivial⟩
    change term ∈ groupOrder dimensions metrics fun label =>
      ((dimensions ++ metrics).lookup label).getD (.ownColumn label) at hterm
    obtain ⟨label, hlabel, hexpr⟩ := label_of_mem_groupOrder hterm
    rw [hexpr]
    cases hfound : (dimensions ++ metrics).lookup label with
    | none => exact List.nil_subset _
    | some e => exact hover (label, e) (mem_of_lookup hfound)

/-- Ordering or ranking groups joins nothing. -/
theorem allJoins_totalsStatement (grouped : Select) (dimensions metrics : List Labelled)
    (limit : Option Nat) :
    (totalsStatement grouped dimensions metrics limit).inner.allJoins = grouped.allJoins := by
  unfold totalsStatement
  split <;> rfl

namespace Target

variable {t : Target} {request : Request} {filter : Option Filter} {selection : Selection}
  {paths : List Path}

/-- What the aliases of joins begin with. -/
def stems : List String := [Joins.defaultStem, totalsStem]

/-- The join of a route that some paths walk. -/
def IsJoinOf (t : Target) (paths : List Path) (j : Join) : Prop :=
  ∃ stem ∈ stems, ∃ route ∈ t.routesUsed paths, t.join stem route = some j

/-- Fewer paths walk fewer routes. -/
theorem IsJoinOf.mono {more : List Path} (hpaths : paths ⊆ more) {j : Join}
    (hj : t.IsJoinOf paths j) : t.IsJoinOf more j := by
  obtain ⟨stem, hstem, route, hroute, hjoin⟩ := hj
  obtain ⟨hnonempty, path, hpath, hbegins⟩ := mem_routesUsed.1 hroute
  exact ⟨stem, hstem, route, mem_routesUsed.2 ⟨hnonempty, path, hpaths hpath, hbegins⟩, hjoin⟩

theorem isJoinOf_joins {stem : String} (hstem : stem ∈ stems) :
    ∀ j ∈ (t.routesUsed paths).filterMap (t.join stem), t.IsJoinOf paths j := by
  intro j hj
  obtain ⟨route, hroute, hjoin⟩ := List.mem_filterMap.1 hj
  exact ⟨stem, hstem, route, hroute, hjoin⟩

theorem isJoinOf_joinsOf : ∀ j ∈ t.joinsOf (t.routesOf paths), t.IsJoinOf paths j := by
  rw [joinsOf_routesOf]
  exact isJoinOf_joins List.mem_cons_self

/-- The joins of written paths have different aliases. -/
theorem nodup_joinsOf (hpaths : ∀ path ∈ paths, path.IsWritten) :
    ((t.joinsOf (t.routesOf paths)).map (·.aliasName)).Nodup := by
  rw [aliasNames_joinsOf]
  exact Registry.nodup_aliasNames hpaths Joins.defaultStem

theorem joinedPaths_subset (t : Target) (filter : Option Filter) :
    t.joinedPaths filter ⊆ pathsOf filter := by
  unfold joinedPaths
  split
  · exact List.nil_subset _
  · exact List.Subset.refl _

section Selection

variable (hselection : t.selection filter = .ok selection)

include hselection

theorem joins_selection : selection.joins = t.joinsOf (t.routesOf (t.joinedPaths filter)) := by
  obtain ⟨_, _, rfl⟩ := selection_eq_ok hselection
  rfl

/-- The joins of a select of keys are those of the filter. -/
theorem joins_restriction : selection.restriction.joins = [] ∨
    selection.restriction.joins = t.joinsOf (t.routesOf (pathsOf filter)) := by
  obtain ⟨condition, _, rfl⟩ := selection_eq_ok hselection
  dsimp only [restrictionOf]
  split
  · exact .inr rfl
  · cases condition <;> exact .inl rfl

theorem isJoinOf_restriction :
    ∀ j ∈ selection.restriction.joins, t.IsJoinOf (pathsOf filter) j := by
  rcases joins_restriction hselection with hnone | hkeys
  · simp [hnone]
  · rw [hkeys]
    exact isJoinOf_joinsOf

theorem nodup_restriction (hpaths : ∀ path ∈ pathsOf filter, path.IsWritten) :
    (selection.restriction.joins.map (·.aliasName)).Nodup := by
  rcases joins_restriction hselection with hnone | hkeys
  · simp [hnone]
  · rw [hkeys]
    exact nodup_joinsOf hpaths

/-- A page is well scoped. -/
theorem page_wellScoped {terms : List OrderTerm}
    (horder : request.order.mapM t.orderTerm = .ok terms)
    (hfilter : ∀ path ∈ pathsOf filter, path.IsWritten)
    (hordered : ∀ path ∈ request.order.map (·.path), path.IsWritten) :
    (t.page selection request terms).WellScoped where
  resolves := page_resolves hselection horder
  aliases := by
    rw [page_joins terms hselection]
    refine nodup_joinsOf fun path hpath => ?_
    rcases List.mem_append.1 hpath with hjoined | hitem
    · exact hfilter path (t.joinedPaths_subset filter hjoined)
    · exact hordered path hitem
  keyAliases := nodup_restriction hselection hfilter

/-- A count is well scoped. -/
theorem count_wellScoped (hfilter : ∀ path ∈ pathsOf filter, path.IsWritten) :
    (t.count selection).WellScoped where
  resolves := count_resolves hselection
  aliases := by
    show (selection.joins.map (·.aliasName)).Nodup
    rw [joins_selection hselection]
    exact nodup_joinsOf fun path hpath => hfilter path (t.joinedPaths_subset filter hpath)
  keyAliases := nodup_restriction hselection hfilter

/-- The aliases of the joins of totals: those of the filter, then those of the totals. -/
theorem aliasNames_grouped (dimensions metrics : List Labelled) :
    (t.grouped selection paths dimensions metrics).joins.map (·.aliasName) =
      (t.routesUsed (t.joinedPaths filter)).map (·.aliasName Joins.defaultStem) ++
        (t.routesUsed paths).map (·.aliasName totalsStem) := by
  rw [grouped, joinsOf_noJoins, List.map_append, joins_selection hselection, aliasNames_joinsOf,
    (resolve_of_isOrdered (t.isOrdered_routesUsed paths)).2]

/-- The select of totals is well scoped. -/
theorem grouped_wellScoped {a : Aggregate} {dimensions : List Labelled}
    {arguments : List (Metric × Option Expr)}
    (hdimensions : a.groupBy.mapM t.dimension = .ok dimensions)
    (harguments : a.metrics.mapM t.metricArgument = .ok arguments)
    (hfilter : ∀ path ∈ pathsOf filter, path.IsWritten)
    (htotals : ∀ path ∈ a.paths, path.IsWritten) :
    (t.grouped selection a.paths dimensions (t.metricColumns a.paths arguments)).WellScoped := by
  have haliases : (t.grouped selection a.paths dimensions
      (t.metricColumns a.paths arguments)).joins.map (·.aliasName) = _ :=
    aliasNames_grouped hselection dimensions _
  have hnames : t.resource.storage :: (t.routesUsed a.paths).map (·.aliasName totalsStem) ⊆
      (t.grouped selection a.paths dimensions (t.metricColumns a.paths arguments)).names := by
    rw [Select.names, haliases]
    exact List.cons_subset_cons _ (List.subset_append_right _ _)
  have hgroups : ∀ column ∈ dimensions, column.2.IsOver
      (t.grouped selection a.paths dimensions (t.metricColumns a.paths arguments)).names := by
    intro column hcolumn
    obtain ⟨path, hpath, hfound⟩ := Result.mem_of_mapM_eq_ok hdimensions hcolumn
    obtain ⟨name, rfl⟩ := dimension_eq_ok hfound
    exact Expr.isOver_column (hnames (t.tableOf_mem_routesUsed totalsStem
      (List.mem_append_left _ hpath)))
  have hmetrics : ∀ column ∈ t.metricColumns a.paths arguments, column.2.IsOver
      (t.grouped selection a.paths dimensions (t.metricColumns a.paths arguments)).names := by
    intro column hcolumn
    obtain ⟨found, hmem, rfl⟩ := List.mem_map.1 hcolumn
    exact isOver_argument harguments (List.subset_append_right _ _) hnames found hmem
  refine ⟨⟨?_, restriction_resolves hselection ?_, ?_, ?_, ?_⟩, ?_,
    nodup_restriction hselection hfilter⟩
  · rw [grouped, joinsOf_noJoins]
    exact resolve_totalsJoins hselection a.paths
  · rw [Select.names, haliases, joins_selection hselection, aliasNames_joinsOf]
    exact List.cons_subset_cons _ (List.subset_append_left _ _)
  · intro column hcolumn
    obtain ⟨labelled, hlabelled, rfl⟩ := List.mem_map.1 hcolumn
    rcases List.mem_append.1 hlabelled with hgroup | hmetric
    · exact hgroups labelled hgroup
    · exact hmetrics labelled hmetric
  · intro e he
    obtain ⟨column, hcolumn, rfl⟩ := List.mem_map.1 he
    exact hgroups column hcolumn
  · intro term hterm
    cases hterm
  · rw [haliases]
    refine List.nodup_append.2 ⟨?_, Registry.nodup_aliasNames htotals totalsStem, ?_⟩
    · exact Registry.nodup_aliasNames (fun path hpath =>
        hfilter path (t.joinedPaths_subset filter hpath)) Joins.defaultStem
    · intro name hname name' hname' heq
      obtain ⟨route, _, rfl⟩ := List.mem_map.1 hname
      obtain ⟨other, _, rfl⟩ := List.mem_map.1 hname'
      exact Route.aliasName_ne heq

end Selection

/-- Every select of a request that was read is well scoped: the page, the count and the totals, with
their selects of keys, mention only tables that they have, in joins only earlier ones, and introduce
no alias twice; and a select around one that ranks groups mentions only columns of that. Every alias
is that of a route that the paths of the request walk, and different routes have different
aliases. -/
theorem statements_wellScoped {params : Params} {resource : Resource} {options : Options}
    {query : Query} (hread : Request.ofParams params resource options = .ok request)
    (hcompile : t.compile request = .ok query) :
    (∀ s ∈ query.selects, s.WellScoped) ∧
    (∀ q ∈ query.totals, q.statement.OuterScoped) ∧
    (∀ s ∈ query.selects, ∀ j ∈ s.allJoins, t.IsJoinOf request.paths j) ∧
    ∀ route ∈ t.routesUsed request.paths, ∀ other ∈ t.routesUsed request.paths,
      ∀ stem ∈ stems, ∀ stem' ∈ stems,
        route.names ≠ other.names ∨ stem ≠ stem' → route.aliasName stem ≠ other.aliasName stem' := by
  have hwritten := Request.isWritten_ofParams hread
  have hfilter : ∀ path ∈ pathsOf request.filter, path.IsWritten := fun path hpath =>
    hwritten path (request.path_mem_of_filter hpath)
  have hfiltered : pathsOf request.filter ⊆ request.paths := fun path hpath =>
    request.path_mem_of_filter hpath
  have hordered : request.order.map (·.path) ⊆ request.paths := fun path hpath => by
    obtain ⟨item, hitem, rfl⟩ := List.mem_map.1 hpath
    exact request.path_mem_of_order hitem
  have htotalled : request.aggregate.paths ⊆ request.paths := fun path hpath =>
    request.path_mem_of_totals hpath
  obtain ⟨selection, hselection, hrest⟩ := Result.bind_eq_ok.1 hcompile
  obtain ⟨terms, horder, hrest⟩ := Result.bind_eq_ok.1 hrest
  obtain ⟨totals, htotals, hrest⟩ := Result.bind_eq_ok.1 hrest
  obtain ⟨eager, _, hrest⟩ := Result.bind_eq_ok.1 hrest
  cases hrest
  have hpage := page_wellScoped hselection horder hfilter fun path hpath =>
    hwritten path (hordered hpath)
  have hrestriction : ∀ j ∈ selection.restriction.joins, t.IsJoinOf request.paths j :=
    fun j hj => (isJoinOf_restriction hselection j hj).mono hfiltered
  have hselected : ∀ j ∈ selection.joins, t.IsJoinOf request.paths j := by
    rw [joins_selection hselection]
    exact fun j hj => (isJoinOf_joinsOf j hj).mono
      (List.Subset.trans (t.joinedPaths_subset _) hfiltered)
  have hstatement : ∀ q ∈ totals, q.statement.inner.WellScoped ∧ q.statement.OuterScoped ∧
      ∀ j ∈ q.statement.inner.allJoins, t.IsJoinOf request.paths j := by
    rintro q rfl
    obtain ⟨dimensions, arguments, hdimensions, harguments, rfl⟩ := t.totals_eq_some htotals
    have hgrouped := grouped_wellScoped hselection hdimensions harguments hfilter fun path hpath =>
      hwritten path (htotalled hpath)
    obtain ⟨hinner, houter⟩ := wellScoped_totalsStatement hgrouped rfl rfl
      request.aggregate.groupLimit
    refine ⟨hinner, houter, fun j hj => ?_⟩
    rw [allJoins_totalsStatement] at hj
    rcases List.mem_append.1 hj with hjoin | hkey
    · rw [grouped, joinsOf_noJoins] at hjoin
      rcases List.mem_append.1 hjoin with hfiltered | hadded
      · exact hselected j hfiltered
      · exact (isJoinOf_joins (by simp [stems]) j hadded).mono htotalled
    · exact hrestriction j hkey
  refine ⟨fun s hs => ?_, fun q hq => (hstatement q hq).2.1, fun s hs j hj => ?_, ?_⟩
  · rcases List.mem_cons.1 hs with rfl | hs
    · exact hpage
    · rcases List.mem_append.1 hs with hcount | htotal
      · rw [Option.mem_toList] at hcount
        split at hcount <;> cases hcount
        exact count_wellScoped hselection hfilter
      · obtain ⟨q, hq, rfl⟩ := List.mem_map.1 htotal
        exact (hstatement q (Option.mem_toList.1 hq)).1
  · rcases List.mem_cons.1 hs with rfl | hs
    · rcases List.mem_append.1 hj with hjoin | hkey
      · rw [page_joins terms hselection] at hjoin
        refine (isJoinOf_joinsOf j hjoin).mono (List.append_subset.2 ⟨?_, hordered⟩)
        exact List.Subset.trans (t.joinedPaths_subset _) hfiltered
      · exact hrestriction j hkey
    · rcases List.mem_append.1 hs with hcount | htotal
      · rw [Option.mem_toList] at hcount
        split at hcount <;> cases hcount
        rcases List.mem_append.1 hj with hjoin | hkey
        · exact hselected j hjoin
        · exact hrestriction j hkey
      · obtain ⟨q, hq, rfl⟩ := List.mem_map.1 htotal
        exact (hstatement q (Option.mem_toList.1 hq)).2.2 j hj
  · intro route hroute other hother stem hstem stem' hstem' hdiffer halias
    rcases eq_or_ne stem stem' with rfl | hstems
    · obtain rfl := Registry.eq_of_aliasName hwritten hroute hother halias
      simp at hdiffer
    · simp only [stems, List.mem_cons, List.not_mem_nil, or_false] at hstem hstem'
      rcases hstem with rfl | rfl <;> rcases hstem' with rfl | rfl
      · exact hstems rfl
      · exact Route.aliasName_ne halias
      · exact Route.aliasName_ne halias.symm
      · exact hstems rfl

end Target

namespace Shop

/-- Well reviewed products by category, how many there are, and the highest mean ratings among the
products of each category, by rating. -/
def ranked : Request where
  filter := reviewed.filter
  order := reviewed.order
  paging := reviewed.paging
  aggregate := {
    metrics := [⟨.avg, some ⟨["reviews"], "rating"⟩⟩]
    groupBy := [⟨["category"], "name"⟩, ⟨["reviews"], "rating"⟩]
    groupLimit := some 2 }

/-- The page has a select of keys and a join of its own, the count only the former, and the ranked
totals join the category and the reviews once more. -/
theorem statements_wellScoped_ranked :
    ∃ query, (target "products").compile ranked = .ok query ∧
      query.selects.map (fun s => s.allJoins.map (·.aliasName)) =
        [["rel_category", "rel_reviews"], ["rel_reviews"],
          ["totals_category", "totals_reviews", "rel_reviews"]] ∧
      (∀ s ∈ query.selects, s.WellScoped) ∧ ∀ q ∈ query.totals, q.statement.OuterScoped := by
  have hread : Request.ofParams ⟨[("reviews__rating__gte", "4"), ("order", "category__name"),
      ("total_count", "true"), ("totals", "avg__reviews__rating"),
      ("group_by", "category__name,reviews__rating"), ("group_limit", "2")]⟩
        (products "products") {} = .ok ranked := rfl
  obtain ⟨hselects, houter, _⟩ := Target.statements_wellScoped hread
    (show (target "products").compile ranked = _ from rfl)
  exact ⟨_, rfl, rfl, hselects, houter⟩

end Shop
end Listing.Sql

/-
# Limits on groups

Of the groups that totals list, a limit keeps the first ones of each parent. Pipelines and searches
do so for all values, as they cut groups after they have put them in their final order. A select
ranks groups by their metrics alone: it does so if the metrics decide which groups of a parent are
its first ones. Of two groups with the same metrics it may keep the one that comes later.
-/
import Listing.Proofs.BucketLevels
import Listing.Proofs.GatheredGroups
import Listing.Proofs.MetricIndependence
import Listing.Proofs.RankedGroups

namespace Listing

/-- The same request without a limit on groups. -/
def Request.unlimited (request : Request) : Request :=
  { request with aggregate := { request.aggregate with groupLimit := none } }

theorem Aggregate.withLimit_eq (a : Aggregate) {limit : Option Nat}
    (hlimit : a.groupLimit = limit) : { a with groupLimit := limit } = a := by
  rw [← hlimit]

variable {c : Collation} {request : Request} {n : Nat}

namespace Sql

variable {t : Target} {query : Query}

/-- Without a limit on groups, only the totals differ. -/
theorem Target.compile_unlimited (hcompile : t.compile request = .ok query) :
    ∃ selection, t.selection request.filter = .ok selection ∧
      t.totals selection request.aggregate = .ok query.totals ∧
      ∀ totals, t.totals selection request.unlimited.aggregate = .ok totals →
        t.compile request.unlimited = .ok { query with totals } := by
  obtain ⟨selection, terms, found, eager, hselection, hterms, htotals, heager, rfl⟩ :=
    compile_eq_ok_iff.1 hcompile
  exact ⟨selection, hselection, htotals, fun totals htotals' => compile_eq_ok_iff.2
    ⟨selection, terms, totals, eager, hselection, hterms, htotals', heager, rfl⟩⟩

/-- The select of totals with groups has a column for each group and each metric. -/
theorem Target.isGrouped (selection : Selection) {a : Aggregate} {dimensions : List Labelled}
    {arguments : List (Metric × Option Expr)} (hpaths : a.groupBy.mapM t.dimension = .ok dimensions)
    (hdimensions : dimensions.map (·.1) = a.groupBy.map Path.label)
    (hmetrics : (t.metricColumns a.paths arguments).map (·.1) = a.metrics.map Metric.label) :
    (t.grouped selection a.paths dimensions (t.metricColumns a.paths arguments)).IsGrouped a
      dimensions (t.metricColumns a.paths arguments) where
  groupLabels := hdimensions
  metricLabels := hmetrics
  columns := rfl
  groupBy := rfl
  plain := fun d hd => by
    obtain ⟨path, _, hpath⟩ := Result.mem_of_mapM_eq_ok hpaths hd
    obtain ⟨name, rfl⟩ := dimension_eq_ok hpath
    exact ⟨_, name, rfl⟩
  orderBy := rfl
  limit := rfl
  offset := rfl

/-- Totals with groups have the tables of totals without them. -/
theorem Target.grouped_eq (selection : Selection) (paths : List Path) (dimensions : List Labelled)
    (arguments : List (Metric × Option Expr)) :
    t.grouped selection paths dimensions (t.metricColumns paths arguments) =
      { t.ungrouped selection paths arguments with
        columns := dimensions.map (fun d => .named d.2 d.1) ++
          (t.ungrouped selection paths arguments).columns
        groupBy := dimensions.map (·.2) } := by
  simp [grouped, ungrouped, metricColumns, joinsOf_noJoins]

/-- Totals with groups refer to tables that they have. -/
theorem Target.grouped_resolves {filter : Option Filter} {selection : Selection} {a : Aggregate}
    {dimensions : List Labelled} {arguments : List (Metric × Option Expr)}
    (hselection : t.selection filter = .ok selection)
    (hdimensions : a.groupBy.mapM t.dimension = .ok dimensions)
    (harguments : a.metrics.mapM t.metricArgument = .ok arguments) :
    (t.grouped selection a.paths dimensions (t.metricColumns a.paths arguments)).Resolves := by
  obtain ⟨hjoins, hrestriction, hcolumns, _, horderBy⟩ :=
    ungrouped_resolves hselection harguments (List.subset_append_right a.groupBy _)
  have hover : ∀ d ∈ dimensions, d.2.IsOver (t.ungrouped selection a.paths arguments).names := by
    intro d hd
    obtain ⟨path, hpath, hfound⟩ := Result.mem_of_mapM_eq_ok hdimensions hd
    obtain ⟨name, rfl⟩ := dimension_eq_ok hfound
    rw [names_ungrouped hselection]
    refine Expr.isOver_column (List.cons_subset_cons _ (List.subset_append_right _ _) ?_)
    exact t.tableOf_mem_routesUsed totalsStem (List.mem_append_left _ hpath)
  rw [grouped_eq]
  refine ⟨hjoins, hrestriction, List.forall_mem_append.2 ⟨fun column hcolumn => ?_, hcolumns⟩,
    fun e he => ?_, horderBy⟩
  · obtain ⟨d, hd, rfl⟩ := List.mem_map.1 hcolumn
    exact hover d hd
  · obtain ⟨d, hd, rfl⟩ := List.mem_map.1 he
    exact hover d hd

/-- Totals with groups are accepted, unless two of their tables have the same name. -/
theorem Target.grouped_distinct_iff {filter : Option Filter} {selection : Selection}
    (hselection : t.selection filter = .ok selection) (paths : List Path)
    (dimensions : List Labelled) (arguments : List (Metric × Option Expr)) :
    (t.grouped selection paths dimensions (t.metricColumns paths arguments)).Distinct ↔
      t.TotalsNamesApart filter paths := by
  rw [grouped_eq]
  exact ungrouped_distinct_iff hselection paths arguments

/-- With a limit on groups, totals are accepted like those without one, and list the first groups of
each parent exactly if the metrics decide which these are. -/
theorem Target.shows_limited (hlinear : c.IsLinear) (ha : request.aggregate.IsRead)
    (hapart : request.aggregate.LabelsApart) (hgrouped : request.aggregate.groupBy ≠ [])
    (hlimit : request.aggregate.groupLimit = some n) (hcompile : t.compile request = .ok query) :
    ∃ q q', query.totals = some q ∧
      t.compile request.unlimited = .ok { query with totals := some q' } ∧
      ∀ engine db, ((∃ shown, q'.statement.Shows c engine db request.aggregate shown) ↔
          t.TotalsNamesApart request.filter request.aggregate.paths) ∧
        ∀ shown, q'.statement.Shows c engine db request.aggregate shown →
          shown.length ≤ maxBound →
          (∃ kept, q.statement.Shows c engine db request.aggregate kept) ∧
          ((∀ kept, q.statement.Shows c engine db request.aggregate kept →
            request.aggregate.KeepsFirst n shown kept) ↔
              request.aggregate.IsDecided c n shown) := by
  obtain ⟨selection, hselection, htotals, hunlimited⟩ := compile_unlimited hcompile
  obtain ⟨dimensions, arguments, hpaths, harguments, hdimensions, hmetrics, hall⟩ :=
    totals_of_grouped hgrouped htotals
  have hs := t.isGrouped selection hpaths hdimensions hmetrics
  have hresolves := grouped_resolves hselection hpaths harguments
  have hsome := hall (some n)
  rw [request.aggregate.withLimit_eq hlimit, htotals,
    totalsStatement_some _ (hs.dimensions_ne_nil hgrouped)] at hsome
  refine ⟨_, _, Except.ok.inj hsome, hunlimited _ (hall none), fun engine db => ⟨?_, ?_⟩⟩
  · rw [← t.grouped_distinct_iff hselection request.aggregate.paths dimensions arguments]
    exact hs.exists_shows_ordered ha hapart hlinear hresolves
  · exact fun shown hshown hlength => hs.shows_ranked ha hapart hlinear hgrouped hshown hlength

end Sql

namespace Document

variable {t : Target} {query : Query}

/-- Without a limit on groups, only the totals differ. -/
theorem Target.compile_unlimited (hcompile : t.compile request = .ok query) :
    ∃ base, (∀ stage ∈ base, stage.finds) ∧ t.totals base request.aggregate = .ok query.totals ∧
      ∀ totals, t.totals base request.unlimited.aggregate = .ok totals →
        t.compile request.unlimited = .ok { query with totals } := by
  obtain ⟨condition, hcondition, hrest⟩ := Result.bind_eq_ok.1 hcompile
  obtain ⟨order, horder, hrest⟩ := Result.bind_eq_ok.1 hrest
  obtain ⟨fetch, hfetch, hrest⟩ := Result.bind_eq_ok.1 hrest
  obtain ⟨found, htotals, hrest⟩ := Result.bind_eq_ok.1 hrest
  cases hrest
  refine ⟨_, finds_base _ condition, htotals, fun totals htotals' => ?_⟩
  exact Result.bind_eq_ok.2 ⟨condition, hcondition, Result.bind_eq_ok.2 ⟨order, horder,
    Result.bind_eq_ok.2 ⟨fetch, hfetch, Result.bind_eq_ok.2 ⟨totals, htotals', rfl⟩⟩⟩⟩

/-- With a limit on groups, the pipeline of totals leaves the first documents of each parent. -/
theorem Target.runs_limited (hlinear : c.IsLinear) (ha : request.aggregate.IsRead)
    (hapart : request.aggregate.LabelsApart)
    (hgrouped : request.aggregate.groupBy ≠ []) (hlimit : request.aggregate.groupLimit = some n)
    (hcompile : t.compile request = .ok query) :
    ∃ q q', query.totals = some q ∧
      t.compile request.unlimited = .ok { query with totals := some q' } ∧
      ∀ (store : Accumulation) docs, (∃ shown, store.Runs c q'.pipeline docs shown) ∧
        ∀ shown, store.Runs c q'.pipeline docs shown →
          (∃ kept, store.Runs c q.pipeline docs kept) ∧
          ∀ kept, store.Runs c q.pipeline docs kept →
            request.aggregate.KeepsFirst n (shown.map resultRow) (kept.map resultRow) := by
  obtain ⟨base, hbase, htotals, hunlimited⟩ := compile_unlimited hcompile
  obtain ⟨before, dimensions, accumulators, hbefore, hdimensions, haccumulators, hall⟩ :=
    totals_of_grouped hgrouped htotals
  have hsome := hall (some n)
  rw [request.aggregate.withLimit_eq hlimit, htotals] at hsome
  refine ⟨_, _, Except.ok.inj hsome, hunlimited _ (hall none), fun store docs => ?_⟩
  -- The same documents are found in both cases.
  have hruns {limit : Option Nat} {docs out : List GroupDoc} : store.Runs c (base ++ before ++
      totalsStages request.aggregate dimensions accumulators limit) docs out ↔ _ :=
    Accumulation.runs_append_of_finds (List.forall_mem_append.2 ⟨hbase, hbefore⟩)
  refine ⟨?_, fun shown hshown => ?_⟩
  · obtain ⟨shown, hshown⟩ :=
      Accumulation.exists_runs_totals hlinear hgrouped dimensions accumulators _
    exact ⟨shown, hruns.2 hshown⟩
  obtain ⟨⟨kept, hkept⟩, hall⟩ := Accumulation.runs_totals (n := n) ha hapart hlinear hgrouped
    hdimensions haccumulators (hruns.1 hshown)
  exact ⟨⟨kept, hruns.2 hkept⟩, fun kept hkept => hall kept (hruns.1 hkept)⟩

end Document

namespace SearchIndex

variable {t : Target} {query : Query}

/-- With a limit on groups, the buckets of totals are the first ones of each parent. -/
theorem Target.lists_limited (hlinear : c.IsLinear) (ha : request.aggregate.IsRead)
    (hgrouped : request.aggregate.groupBy ≠ []) (hlimit : request.aggregate.groupLimit = some n)
    (hcompile : t.compile request = .ok query) :
    ∃ aggregations, t.compile request.unlimited = .ok { query with aggregations } ∧
      (n ≤ defaultBuckets → ∀ (α : Type) (index : Statistics α) docs,
        (∃ shown, index.Lists c aggregations docs shown) ∧
        ∀ shown, index.Lists c aggregations docs shown →
          (∃ kept, index.Lists c query.aggregations docs kept) ∧
          ∀ kept, index.Lists c query.aggregations docs kept →
            request.aggregate.KeepsFirst n (shown.map (groupRow request.aggregate))
              (kept.map (groupRow request.aggregate))) := by
  obtain ⟨filter, sort, dimensions, fields, hfilter, hsort, hdimensions, hfields, rfl⟩ :=
    compile_eq_ok_iff.1 hcompile
  have hlength := Result.length_of_mapM_eq_ok hdimensions
  have hnonempty : dimensions ≠ [] := by
    rintro rfl
    exact hgrouped (List.eq_nil_of_length_eq_zero hlength.symm)
  refine ⟨bucketLevels fields none dimensions, compile_eq_ok_iff.2
    ⟨filter, sort, dimensions, fields, hfilter, hsort, hdimensions, hfields, rfl⟩,
    fun hbound α index docs =>
    ⟨Statistics.exists_lists hlinear dimensions docs, fun shown hshown => ?_⟩⟩
  dsimp only
  rw [hlimit]
  obtain ⟨hexists, hall⟩ := Statistics.lists_limited hlinear hbound hnonempty hshown
  refine ⟨hexists, fun kept hkept => ?_⟩
  exact keepsFirst_groupRow ha.groupBy (fun path hpath =>
    (Statistics.length_of_lists hshown path hpath).trans hlength) (hall kept hkept)

end SearchIndex

/-- Of the groups that totals list without a limit, those with one are the first ones of each
parent: in a pipeline for all documents, in a search unless the limit is above the number of buckets
that it asks for by itself, and in a select exactly if the metrics decide which these are. -/
theorem limits_keep_first_groups (hlinear : c.IsLinear) {totals groupBy : List String}
    {groupLimit : Option String}
    (hread : Aggregate.read totals groupBy groupLimit = .ok request.aggregate)
    (hgrouped : request.aggregate.groupBy ≠ []) (hapart : request.aggregate.LabelsApart)
    (hlimit : request.aggregate.groupLimit = some n) :
    (∀ (t : Sql.Target) (query : Sql.Query), t.compile request = .ok query →
      ∃ q q', query.totals = some q ∧
        t.compile request.unlimited = .ok { query with totals := some q' } ∧
        ∀ engine db, ((∃ shown, q'.statement.Shows c engine db request.aggregate shown) ↔
            t.TotalsNamesApart request.filter request.aggregate.paths) ∧
          ∀ shown, q'.statement.Shows c engine db request.aggregate shown →
            shown.length ≤ Sql.maxBound →
            (∃ kept, q.statement.Shows c engine db request.aggregate kept) ∧
            ((∀ kept, q.statement.Shows c engine db request.aggregate kept →
              request.aggregate.KeepsFirst n shown kept) ↔
                request.aggregate.IsDecided c n shown)) ∧
    (∀ (t : Document.Target) (query : Document.Query), t.compile request = .ok query →
      ∃ q q', query.totals = some q ∧
        t.compile request.unlimited = .ok { query with totals := some q' } ∧
        ∀ (store : Document.Accumulation) docs,
          (∃ shown, store.Runs c q'.pipeline docs shown) ∧
          ∀ shown, store.Runs c q'.pipeline docs shown →
            (∃ kept, store.Runs c q.pipeline docs kept) ∧
            ∀ kept, store.Runs c q.pipeline docs kept →
              request.aggregate.KeepsFirst n (shown.map Document.resultRow)
                (kept.map Document.resultRow)) ∧
    ∀ (t : SearchIndex.Target) (query : SearchIndex.Query), t.compile request = .ok query →
      ∃ aggregations, t.compile request.unlimited = .ok { query with aggregations } ∧
        (n ≤ SearchIndex.defaultBuckets → ∀ (α : Type) (index : SearchIndex.Statistics α) docs,
          (∃ shown, index.Lists c aggregations docs shown) ∧
          ∀ shown, index.Lists c aggregations docs shown →
            (∃ kept, index.Lists c query.aggregations docs kept) ∧
            ∀ kept, index.Lists c query.aggregations docs kept →
              request.aggregate.KeepsFirst n
                (shown.map (SearchIndex.groupRow request.aggregate))
                (kept.map (SearchIndex.groupRow request.aggregate))) := by
  have ha := Aggregate.isRead_of_read hread
  refine ⟨fun t query hcompile => ?_, fun t query hcompile => ?_, fun t query hcompile => ?_⟩
  · exact Sql.Target.shows_limited hlinear ha hapart hgrouped hlimit hcompile
  · exact Document.Target.runs_limited hlinear ha hapart hgrouped hlimit hcompile
  · exact SearchIndex.Target.lists_limited hlinear ha hgrouped hlimit hcompile

namespace Catalogue

/-- The name whose products have the highest sum of prices. -/
def best : Request where
  aggregate := {
    metrics := [⟨.sum, some ⟨[], "price"⟩⟩]
    groupBy := [⟨[], "name"⟩]
    groupLimit := some 1 }

/-- A product with a name and a price. -/
def offer (name : String) (price : Rat) : Record := fun column =>
  if column = "name" then .text name else if column = "price" then .number price else .null

def offers (products : List Record) : Sql.Database := fun table =>
  if table = "products" then products else []

/-- The sum of the numbers among some values. -/
def total (values : List Datum) : Datum :=
  .number (values.map fun
    | .number q => q
    | _ => 0).sum

/-- A store of documents that sums values up. Documents are found as they are. -/
def summing : Document.Accumulation where
  accumulate
    | .over "$sum" field, docs => total (docs.map (·.fields field))
    | _, _ => .null
  found _ docs := docs
  length x := x

/-- A search index of records that sums values up. -/
def indexed : SearchIndex.Statistics Record where
  values field product := [product field]
  metric
    | "sum", field, products => total (products.map (· field))
    | _, _, _ => .null

/-- The group of a product that is the only one with its name. -/
def alone (product : Record) : List Sql.Scope := [[("products", product)]]

section Select

open Sql

/-- The columns of names and of sums of prices. -/
def nameColumn : Labelled := ("name", .column "products" "name")
def priceColumn : Labelled := ("sum_price", .call "SUM" [.column "products" "price"])

/-- The select of names with the sums of prices. -/
def priceOfName : Select where
  columns := [.named nameColumn.2 nameColumn.1, .named priceColumn.2 priceColumn.1]
  table := "products"
  groupBy := [nameColumn.2]

theorem isGrouped_priceOfName :
    priceOfName.IsGrouped best.aggregate [nameColumn] [priceColumn] where
  groupLabels := rfl
  metricLabels := rfl
  columns := rfl
  groupBy := rfl
  plain := fun _ hd => ⟨_, _, congrArg Prod.snd (List.mem_singleton.1 hd)⟩
  orderBy := rfl
  limit := rfl
  offset := rfl

theorem resolves_priceOfName : priceOfName.Resolves :=
  table.grouped_resolves (show table.selection none = _ from rfl)
    (show best.aggregate.groupBy.mapM table.dimension = _ from rfl)
    (show best.aggregate.metrics.mapM table.metricArgument = _ from rfl)

theorem isRead_best : best.aggregate.IsRead :=
  Aggregate.isRead_of_read
    (show Aggregate.read ["sum__price"] ["name"] (some "1") = .ok best.aggregate from rfl)

theorem labelsApart_best : best.aggregate.LabelsApart := by
  unfold Aggregate.LabelsApart
  decide

/-- The row of the group of a product. -/
def rowOf (product : Record) : GroupRow :=
  priceOfName.groupRow best.aggregate Engine.counting (alone product)

/-- Groups of one product each may be listed in the order of their rows. -/
theorem lists_priceOfName {products : List Record}
    (hgroups : products.map alone = priceOfName.groups Engine.counting
      (priceOfName.found Engine.counting (offers products)))
    (hsorted : products.Pairwise fun product product' =>
      (Collation.standard.compareBy best.aggregate.order (rowOf product) (rowOf product')).isLE) :
    (orderedTotals priceOfName [nameColumn] [priceColumn]).Lists Collation.standard
      Engine.counting (offers products) (products.map alone) :=
  (isGrouped_priceOfName.lists_ordered_iff isRead_best labelsApart_best _).2
    ⟨by decide, isGrouped_priceOfName.resolves_ordered isRead_best labelsApart_best
      resolves_priceOfName, .of_eq hgroups, List.pairwise_map.2 hsorted⟩

/-- Without a limit, totals are the select of all names. -/
theorem statement_unlimited {query : Query} {q : TotalsQuery}
    (hcompile : table.compile best.unlimited = .ok { query with totals := some q }) :
    q.statement = .select (orderedTotals priceOfName [nameColumn] [priceColumn]) :=
  (congrArg TotalsQuery.statement
    (Option.some.inj (congrArg Query.totals (Except.ok.inj hcompile)))).symm

end Select

/-- Of a lamp and a cheaper desk, the lamp comes first in every store, and a limit leaves it. -/
theorem limits_keep_first_groups_best :
    let products := [offer "lamp" 2, offer "desk" 1]
    (∃ query q q' kept, table.compile best = .ok query ∧ query.totals = some q ∧
      table.compile best.unlimited = .ok { query with totals := some q' } ∧
      q'.statement.Shows Collation.standard Sql.Engine.counting (offers products) best.aggregate
        (products.map rowOf) ∧
      q.statement.Shows Collation.standard Sql.Engine.counting (offers products) best.aggregate
        kept ∧
      best.aggregate.KeepsFirst 1 (products.map rowOf) kept) ∧
    (∃ query q q' shown kept, documents.compile best = .ok query ∧ query.totals = some q ∧
      documents.compile best.unlimited = .ok { query with totals := some q' } ∧
      summing.Runs Collation.standard q'.pipeline (products.map (⟨·, fun _ => []⟩)) shown ∧
      summing.Runs Collation.standard q.pipeline (products.map (⟨·, fun _ => []⟩)) kept ∧
      best.aggregate.KeepsFirst 1 (shown.map Document.resultRow)
        (kept.map Document.resultRow)) ∧
    ∃ query aggregations shown kept, index.compile best = .ok query ∧
      index.compile best.unlimited = .ok { query with aggregations } ∧
      indexed.Lists Collation.standard aggregations products shown ∧
      indexed.Lists Collation.standard query.aggregations products kept ∧
      best.aggregate.KeepsFirst 1 (shown.map (SearchIndex.groupRow best.aggregate))
        (kept.map (SearchIndex.groupRow best.aggregate)) := by
  intro products
  have hread : Aggregate.read ["sum__price"] ["name"] (some "1") = .ok best.aggregate := rfl
  obtain ⟨hsql, hdocument, hsearch⟩ := limits_keep_first_groups Collation.isLinear_standard hread
    (by decide) labelsApart_best rfl
  refine ⟨?_, ?_, ?_⟩
  · obtain ⟨q, q', hq, hunlimited, hselects⟩ := hsql table _ rfl
    have hshown : q'.statement.Shows Collation.standard Sql.Engine.counting (offers products)
        best.aggregate (products.map rowOf) := by
      rw [statement_unlimited hunlimited]
      exact ⟨_, lists_priceOfName rfl (by decide +kernel), rfl⟩
    obtain ⟨⟨kept, hkept⟩, hkeeps⟩ := (hselects _ _).2 _ hshown (by decide)
    have hdecided : best.aggregate.IsDecided Collation.standard 1 (products.map rowOf) :=
      Aggregate.isDecided_of_pairwise (by decide +kernel) 1
    exact ⟨_, q, q', kept, rfl, hq, hunlimited, hshown, hkept, hkeeps.2 hdecided kept hkept⟩
  · obtain ⟨q, q', hq, hunlimited, hruns⟩ := hdocument documents _ rfl
    obtain ⟨⟨shown, hshown⟩, hkeeps⟩ := hruns summing (products.map (⟨·, fun _ => []⟩))
    obtain ⟨⟨kept, hkept⟩, hfirst⟩ := hkeeps shown hshown
    exact ⟨_, q, q', shown, kept, rfl, hq, hunlimited, hshown, hkept, hfirst kept hkept⟩
  · obtain ⟨aggregations, hunlimited, hlists⟩ := hsearch index _ rfl
    obtain ⟨⟨shown, hshown⟩, hkeeps⟩ := hlists (by decide) Record indexed products
    obtain ⟨⟨kept, hkept⟩, hfirst⟩ := hkeeps shown hshown
    exact ⟨_, aggregations, shown, kept, rfl, hunlimited, hshown, hkept, hfirst kept hkept⟩

/-- A lamp and a desk have the same price. The desk comes first where all names are listed, but with
a limit the lamp may be left. -/
theorem limit_may_keep_later_name :
    let products := [offer "desk" 1, offer "lamp" 1]
    ∃ query q q', product.check = .ok () ∧ best.validate table.registry product = .ok () ∧
      table.compile best = .ok query ∧ query.totals = some q ∧
      table.compile best.unlimited = .ok { query with totals := some q' } ∧
      q'.statement.Shows Collation.standard Sql.Engine.counting (offers products) best.aggregate
        (products.map rowOf) ∧
      q.statement.Shows Collation.standard Sql.Engine.counting (offers products) best.aggregate
        [rowOf (offer "lamp" 1)] ∧
      ¬ best.aggregate.KeepsFirst 1 (products.map rowOf) [rowOf (offer "lamp" 1)] := by
  intro products
  have hlists := @lists_priceOfName products rfl (by decide +kernel)
  have hkept := (isGrouped_priceOfName.lists_ranked_of_ordered isRead_best labelsApart_best
    (n := 1) (by decide) hlists (by decide) [alone (offer "lamp" 1)]).2
      ⟨⟨[alone (offer "lamp" 1), alone (offer "desk" 1)], .swap _ _ _, fun parent => ?_, ?_⟩,
        List.pairwise_singleton _ _⟩
  · refine ⟨_, _, _, rfl, rfl, rfl, rfl, rfl, ⟨_, hlists, rfl⟩, ⟨_, hkept, ?_⟩, fun hkeeps => ?_⟩
    · exact congrArg (fun row => [row])
        (isGrouped_priceOfName.groupRow_ranked isRead_best labelsApart_best _).symm
    · have hfirst := congrArg (List.map (· (.group ⟨[], "name"⟩))) (hkeeps.2 [])
      exact absurd hfirst (by decide +kernel)
  · have hmetrics : Sorted (Collation.standard.compareOn best.aggregate.metricOrder
        (priceOfName.groupRow best.aggregate Sql.Engine.counting))
        [alone (offer "lamp" 1), alone (offer "desk" 1)] := by
      unfold Sorted
      decide +kernel
    exact hmetrics.sublist List.filter_sublist
  · have hone : ∀ group ∈ [alone (offer "lamp" 1), alone (offer "desk" 1)],
        (best.aggregate.parent ∘ priceOfName.groupRow best.aggregate Sql.Engine.counting) group =
          [] := fun _ _ => rfl
    rw [firstOfEach_of_forall hone]
    exact .refl _

end Catalogue

end Listing

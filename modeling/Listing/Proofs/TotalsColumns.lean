/-
# The columns of totals

A result of totals has one column for each group and one for each metric, and a select that ranks
groups one more for the ranks. Groups are asked for once, and so are metrics, so two columns have
the same name only if a group is labelled like a metric or like the rank. Labels of groups are
chosen by the schema, which may well name an attribute `count`: then the metric is written over the
group wherever columns are kept by name.
-/
import Listing.Proofs.GroupOrder
import Listing.Proofs.RouteNames
import Listing.SearchIndex.Query
import Listing.Sql.Execution

namespace Listing

/-- Under a name that is not there, an entry is written at the end. -/
theorem insertEntry_of_notMem {β : Type} {name : String} {entries : List (String × β)}
    (hfresh : name ∉ entries.map (·.1)) (value : β) :
    insertEntry name value entries = entries ++ [(name, value)] := by
  induction entries with
  | nil => rfl
  | cons entry entries ih =>
      rw [List.map_cons, List.mem_cons, not_or] at hfresh
      rw [insertEntry, if_neg (Ne.symm hfresh.1), ih hfresh.2, List.cons_append]

/-- Entries under names of their own are written one after the other. -/
theorem foldl_insertEntry_eq_append {β : Type} {written entries : List (String × β)}
    (hnodup : ((written ++ entries).map (·.1)).Nodup) :
    entries.foldl (fun acc entry => insertEntry entry.1 entry.2 acc) written =
      written ++ entries := by
  induction entries generalizing written with
  | nil => rw [List.append_nil, List.foldl_nil]
  | cons entry entries ih =>
      have hfresh : entry.1 ∉ written.map (·.1) := by
        rw [List.map_append, List.map_cons, List.nodup_append] at hnodup
        exact fun hmem => hnodup.2.2 _ hmem _ List.mem_cons_self rfl
      rw [List.append_cons] at hnodup ⊢
      rw [List.foldl_cons, insertEntry_of_notMem hfresh, ih hnodup]

/-- Values that are written under names of their own are all there. -/
theorem foldl_insertEntry_values {β : Type} (value : String → β) {written : List (String × β)}
    {names : List String} (hnodup : (written.map (·.1) ++ names).Nodup) :
    names.foldl (fun acc name => insertEntry name (value name) acc) written =
      written ++ names.map fun name => (name, value name) := by
  rw [← foldl_insertEntry_eq_append, List.foldl_map]
  rw [List.map_append, List.map_map]
  simpa [Function.comp_def] using hnodup

namespace Aggregate

variable {a : Aggregate}

/-- The names of the columns of totals: those of the groups, then those of the metrics. -/
def columnLabels (a : Aggregate) : List String :=
  a.groupBy.map Path.label ++ a.metrics.map Metric.label

/-- The name of the column of the ranks, if groups are limited. -/
def rankLabels (a : Aggregate) : List String :=
  if a.groupLimit.isSome && !a.groupBy.isEmpty then [Sql.rankLabel] else []

/-- No group is labelled like a metric. -/
def GroupsApart (a : Aggregate) : Prop :=
  ∀ path ∈ a.groupBy, ∀ m ∈ a.metrics, path.label ≠ m.label

/-- No group is labelled like the rank. -/
def RankApart (a : Aggregate) : Prop := ∀ path ∈ a.groupBy, path.label ≠ Sql.rankLabel

/-- The columns of groups and metrics have different names exactly if no group is labelled like a
metric. -/
theorem IsRead.nodup_columns_iff (ha : a.IsRead) :
    a.columnLabels.Nodup ↔ a.GroupsApart := by
  rw [columnLabels, List.nodup_append]
  constructor
  · intro hnodup path hpath m hm
    exact hnodup.2.2 _ (List.mem_map_of_mem hpath) _ (List.mem_map_of_mem hm)
  · intro hapart
    refine ⟨ha.nodup_groupLabels, ha.nodup_metricLabels, fun label hlabel label' hlabel' => ?_⟩
    obtain ⟨path, hpath, rfl⟩ := List.mem_map.1 hlabel
    obtain ⟨m, hm, rfl⟩ := List.mem_map.1 hlabel'
    exact hapart path hpath m hm

/-- With the column of the ranks, no group may be labelled like the rank either. -/
theorem IsRead.nodup_ranked_iff (ha : a.IsRead) :
    (a.columnLabels ++ [Sql.rankLabel]).Nodup ↔ a.GroupsApart ∧ a.RankApart := by
  rw [← List.concat_eq_append, List.nodup_concat, ha.nodup_columns_iff, and_comm]
  refine and_congr_right fun _ => ?_
  rw [columnLabels, List.mem_append, not_or, List.mem_map, List.mem_map]
  constructor
  · rintro ⟨hgroups, _⟩ path hpath hlabel
    exact hgroups ⟨path, hpath, hlabel⟩
  · intro hapart
    refine ⟨?_, ?_⟩
    · rintro ⟨path, hpath, hlabel⟩
      exact hapart path hpath hlabel
    · rintro ⟨m, _, hlabel⟩
      exact m.label_ne_rankLabel hlabel

/-- The columns of a statement have different names exactly if no group is labelled like a metric,
nor like the rank where groups are limited. -/
theorem IsRead.nodup_statement_iff (ha : a.IsRead) :
    (a.columnLabels ++ a.rankLabels).Nodup ↔
      a.GroupsApart ∧ (a.groupLimit.isSome → a.RankApart) := by
  unfold rankLabels
  by_cases hlimit : a.groupLimit.isSome = true
  · by_cases hempty : a.groupBy = []
    · have hrank : a.RankApart := by simp [RankApart, hempty]
      simp [ha.nodup_columns_iff.symm, hempty, hrank]
    · simp [hlimit, hempty, ← ha.nodup_ranked_iff]
  · simp [hlimit, ← ha.nodup_columns_iff]

end Aggregate

namespace Sql

variable {a : Aggregate}

/-- The names of the columns that have one. -/
def Select.labels (s : Select) : List String :=
  s.columns.filterMap fun
    | .named _ label => some label
    | _ => none

/-- The names of the columns of a statement. Where groups are ranked, the ranks are a column. -/
def Statement.labels : Statement → List String
  | .select s => s.labels
  | .ranked r => r.inner.labels

/-- Every row of totals has the values of all groups and metrics, each under its name. -/
def TotalsQuery.KeepsColumns (q : TotalsQuery) : Prop :=
  ∀ (m : Type → Type) [Monad m] (send : Connection m), send.totals q = do
    return (← send q.statement).map fun record =>
      q.dimensions.map (fun label => (label, record.groupValue label)) ++
        q.metrics.map fun label => (label, record.metricValue label)

/-- Under names of their own, no group and no metric is written over. -/
theorem TotalsQuery.keepsColumns_of_nodup (q : TotalsQuery)
    (hnodup : (q.dimensions ++ q.metrics).Nodup) : q.KeepsColumns := by
  intro m _ send
  have hrow (record : Record) :
      q.metrics.foldl (fun row label => insertEntry label (record.metricValue label) row)
          (q.dimensions.foldl (fun row label => insertEntry label (record.groupValue label) row)
            []) =
        q.dimensions.map (fun label => (label, record.groupValue label)) ++
          q.metrics.map fun label => (label, record.metricValue label) := by
    have hdimensions : ([] ++ q.dimensions).Nodup := (List.nodup_append.1 hnodup).1
    rw [foldl_insertEntry_values record.groupValue hdimensions,
      foldl_insertEntry_values record.metricValue]
    · rfl
    · simpa [Function.comp_def] using hnodup
  simp only [Connection.totals, hrow]

theorem labels_labelled {s : Select} {columns : List Labelled}
    (hcolumns : s.columns = columns.map fun column => .named column.2 column.1) :
    s.labels = columns.map (·.1) := by
  rw [Select.labels, hcolumns, List.filterMap_map, ← List.filterMap_eq_map]
  rfl

/-- One more column adds its name. -/
theorem labels_labelled_append {s : Select} {columns : List Labelled} {e : Expr} {label : String}
    (hcolumns : s.columns =
      (columns.map fun column => .named column.2 column.1) ++ [.named e label]) :
    s.labels = columns.map (·.1) ++ [label] := by
  have hall : s.columns =
      (columns ++ [(label, e)]).map fun column => .named column.2 column.1 := by
    rw [hcolumns, List.map_append, List.map_singleton]
  rw [labels_labelled hall, List.map_append, List.map_singleton]

/-- A statement of totals has the columns of what it groups, and that of the ranks if it ranks
groups. -/
theorem labels_totalsStatement {grouped : Select} {dimensions metrics : List Labelled}
    (hcolumns : grouped.columns =
      (dimensions ++ metrics).map fun column => .named column.2 column.1)
    (limit : Option Nat) :
    (totalsStatement grouped dimensions metrics limit).labels =
      (dimensions ++ metrics).map (·.1) ++
        if limit.isSome && !dimensions.isEmpty then [rankLabel] else [] := by
  cases limit with
  | none =>
      exact (labels_labelled (s := { grouped with orderBy := _ }) hcolumns).trans (by simp)
  | some n =>
      by_cases hempty : dimensions = []
      · subst hempty
        exact (labels_labelled (s := { grouped with orderBy := _ }) hcolumns).trans (by simp)
      · rw [totalsStatement_some grouped hempty]
        rw [if_pos (by simp [hempty])]
        exact labels_labelled_append (congrArg (· ++ _) hcolumns)

/-- Totals have a column for each group and each metric, and one for the ranks if they are
limited. -/
theorem Target.labels_of_totals {t : Target} {selection : Selection} {q : TotalsQuery}
    (htotals : t.totals selection a = .ok (some q)) :
    q.dimensions ++ q.metrics = a.columnLabels ∧
      q.statement.labels = a.columnLabels ++ a.rankLabels := by
  obtain ⟨dimensions, arguments, hdimensions, harguments, rfl⟩ := t.totals_eq_some htotals
  have hgroups := t.map_fst_dimensions hdimensions
  have hcolumns : dimensions.map (·.1) ++ (t.metricColumns a.paths arguments).map (·.1) =
      a.columnLabels := by
    rw [hgroups, t.map_fst_metricColumns harguments, Aggregate.columnLabels]
  have hempty : dimensions.isEmpty = a.groupBy.isEmpty := by
    rw [← List.isEmpty_map (f := Prod.fst), hgroups, List.isEmpty_map]
  refine ⟨hcolumns, ?_⟩
  dsimp only
  rw [labels_totalsStatement rfl, List.map_append, hcolumns, hempty, Aggregate.rankLabels]

end Sql
namespace Document

variable {a : Aggregate}

/-- Totals end with a document that has a field for each group and each metric. -/
theorem Target.project_of_totals {t : Target} {base : List Stage} {q : TotalsQuery}
    (htotals : t.totals base a = .ok (some q)) :
    q.dimensions ++ q.metrics = a.columnLabels ∧
      q.pipeline.getLast? = some (.project (resultShape q.dimensions q.metrics)) := by
  unfold Target.totals at htotals
  split at htotals
  · cases htotals
  · obtain ⟨dimensions, hdimensions, hrest⟩ := Result.bind_eq_ok.1 htotals
    obtain ⟨arguments, _, hpure⟩ := Result.bind_eq_ok.1 hrest
    cases hpure
    refine ⟨congrArg (· ++ _) ?_, List.getLast?_concat⟩
    refine Result.map_eq_of_mapM_eq_ok (fun path found hfound => ?_) hdimensions
    obtain ⟨field, _, hpure⟩ := Result.bind_eq_ok.1 hfound
    cases hpure
    rfl

/-- The last stage of totals gives every group and every metric under its name. -/
def TotalsQuery.KeepsColumns (q : TotalsQuery) : Prop :=
  ∃ fields, q.pipeline.getLast? = some (.project fields) ∧
    (∀ label ∈ q.dimensions, fields.lookup label = some (.renamed (idField label))) ∧
    ∀ label ∈ q.metrics, fields.lookup label = some .shown

/-- Under names of their own, the fields of all groups and metrics are projected. -/
theorem lookup_resultShape {dimensions metrics : List String}
    (hnodup : (dimensions ++ metrics).Nodup) :
    (∀ label ∈ dimensions,
      (resultShape dimensions metrics).lookup label = some (.renamed (idField label))) ∧
    (∀ label ∈ metrics, (resultShape dimensions metrics).lookup label = some .shown) := by
  let fields := dimensions.map (fun label => (label, Projection.renamed (idField label))) ++
    metrics.map (·, Projection.shown)
  -- The identity is hidden first, so it is written over where a group is labelled `_id`.
  have hshape (label : String) : (resultShape dimensions metrics).lookup label =
      (fields.reverse.lookup label).or (List.lookup label [("_id", .hidden)]) := by
    rw [resultShape, lookup_written, List.cons_append, List.reverse_cons, List.lookup_append]
  have hnames : (fields.reverse.map (·.1)).Nodup := by
    rw [List.map_reverse, List.nodup_reverse, List.map_append, List.map_map, List.map_map]
    simpa [Function.comp_def] using hnodup
  constructor
  · intro label hlabel
    rw [hshape, lookup_of_mem hnames (b := .renamed (idField label)), Option.some_or]
    rw [List.mem_reverse, List.mem_append, List.mem_map]
    exact .inl ⟨label, hlabel, rfl⟩
  · intro label hlabel
    rw [hshape, lookup_of_mem hnames (b := .shown), Option.some_or]
    rw [List.mem_reverse, List.mem_append, List.mem_map]
    exact .inr (List.mem_map.2 ⟨label, hlabel, rfl⟩)

end Document
namespace SearchIndex

/-- The rows of totals are the rows of the groups, each with its metrics after it. -/
def Query.KeepsColumns (query : Query) : Prop :=
  ∀ answer, ∀ row ∈ query.totalsRows answer,
    ∃ groups ∈ rowsFrom [] [] query.dimensions answer, ∃ bucket,
      groups.map (·.1) = query.dimensions ∧
      row = groups ++ query.metrics.map fun label => (label, metricValue bucket label)

/-- A search has a column for each group and each metric. -/
theorem Target.labels_of_compile {t : Target} {request : Request} {query : Query}
    (hcompile : t.compile request = .ok query) :
    query.dimensions ++ query.metrics = request.aggregate.columnLabels := by
  obtain ⟨_, _, dimensions, metrics, -, -, hdimensions, hmetrics, rfl⟩ :=
    compile_eq_ok_iff.1 hcompile
  refine congrArg₂ (· ++ ·) ?_ ?_
  · refine Result.map_eq_of_mapM_eq_ok (fun path found hfound => ?_) hdimensions
    obtain ⟨field, _, hpure⟩ := Result.bind_eq_ok.1 hfound
    cases hpure
    rfl
  · refine Result.map_eq_of_mapM_eq_ok (fun m found hfound => ?_) hmetrics
    obtain ⟨field, _, hpure⟩ := Result.bind_eq_ok.1 hfound
    cases hpure
    rfl

/-- Under names of their own, the rows of a search are the rows of its groups, each with its
metrics after it. The induction is on the groups. -/
theorem exists_row_of_rowsFrom {metrics : List String} {row written : Row}
    {dimensions : List String} {answer : Json}
    (hnodup : (written.map (·.1) ++ dimensions ++ metrics).Nodup)
    (hrow : row ∈ rowsFrom metrics written dimensions answer) :
    ∃ groups ∈ rowsFrom [] written dimensions answer, ∃ bucket,
      groups.map (·.1) = written.map (·.1) ++ dimensions ∧
      row = groups ++ metrics.map fun label => (label, metricValue bucket label) := by
  induction dimensions generalizing written answer with
  | nil =>
      rw [List.append_nil] at hnodup
      rw [rowsFrom, foldl_insertEntry_values (metricValue answer) hnodup,
        List.mem_singleton] at hrow
      exact ⟨written, List.mem_singleton.2 rfl, answer, (List.append_nil _).symm, hrow⟩
  | cons label dimensions ih =>
      have hfresh : label ∉ written.map (·.1) := by
        rw [List.append_assoc, List.nodup_append] at hnodup
        exact fun hmem => hnodup.2.2 _ hmem _ List.mem_cons_self rfl
      rw [rowsFrom] at hrow ⊢
      obtain ⟨bucket, hbucket, hmem⟩ := List.mem_flatMap.1 hrow
      rw [insertEntry_of_notMem hfresh] at hmem
      obtain ⟨groups, hgroups, inner, hnames, heq⟩ := ih (by simpa using hnodup) hmem
      refine ⟨groups, List.mem_flatMap.2 ⟨bucket, hbucket, ?_⟩, inner, by simpa using hnames, heq⟩
      rwa [insertEntry_of_notMem hfresh]

end SearchIndex
/-- The columns of totals are those of the groups, then those of the metrics, and where a select
ranks groups that of the ranks. They have different names exactly if no group is labelled like a
metric, nor like the rank where there is one; and then no store writes one column over another. -/
theorem totals_columns_differ_iff {params : Params} {resource : Resource} {options : Options}
    {request : Request} (hread : Request.ofParams params resource options = .ok request) :
    (∀ (t : Sql.Target) (query : Sql.Query) (q : Sql.TotalsQuery),
      t.compile request = .ok query → query.totals = some q →
      q.statement.labels = request.aggregate.columnLabels ++ request.aggregate.rankLabels ∧
      (q.statement.labels.Nodup ↔ request.aggregate.GroupsApart ∧
        (request.aggregate.groupLimit.isSome → request.aggregate.RankApart)) ∧
      (q.statement.labels.Nodup → q.KeepsColumns)) ∧
    (∀ (t : Document.Target) (query : Document.Query) (q : Document.TotalsQuery),
      t.compile request = .ok query → query.totals = some q →
      q.dimensions ++ q.metrics = request.aggregate.columnLabels ∧
      ((q.dimensions ++ q.metrics).Nodup ↔ request.aggregate.GroupsApart) ∧
      ((q.dimensions ++ q.metrics).Nodup → q.KeepsColumns)) ∧
    ∀ (t : SearchIndex.Target) (query : SearchIndex.Query), t.compile request = .ok query →
      query.dimensions ++ query.metrics = request.aggregate.columnLabels ∧
      ((query.dimensions ++ query.metrics).Nodup ↔ request.aggregate.GroupsApart) ∧
      ((query.dimensions ++ query.metrics).Nodup → query.KeepsColumns) := by
  have ha := Request.aggregate_ofParams hread
  refine ⟨fun t query q hcompile hq => ?_, fun t query q hcompile hq => ?_,
    fun t query hcompile => ?_⟩
  · obtain ⟨selection, _, hrest⟩ := Result.bind_eq_ok.1 hcompile
    obtain ⟨terms, _, hrest⟩ := Result.bind_eq_ok.1 hrest
    obtain ⟨totals, htotals, hrest⟩ := Result.bind_eq_ok.1 hrest
    obtain ⟨eager, _, hrest⟩ := Result.bind_eq_ok.1 hrest
    cases hrest
    obtain rfl : totals = some q := hq
    obtain ⟨hcolumns, hlabels⟩ := Sql.Target.labels_of_totals htotals
    refine ⟨hlabels, by rw [hlabels]; exact ha.nodup_statement_iff, fun hnodup => ?_⟩
    rw [hlabels, ← hcolumns] at hnodup
    exact q.keepsColumns_of_nodup (List.nodup_append.1 hnodup).1
  · obtain ⟨condition, _, hrest⟩ := Result.bind_eq_ok.1 hcompile
    obtain ⟨order, _, hrest⟩ := Result.bind_eq_ok.1 hrest
    obtain ⟨fetch, _, hrest⟩ := Result.bind_eq_ok.1 hrest
    obtain ⟨totals, htotals, hrest⟩ := Result.bind_eq_ok.1 hrest
    cases hrest
    obtain rfl : totals = some q := hq
    obtain ⟨hcolumns, hlast⟩ := Document.Target.project_of_totals htotals
    refine ⟨hcolumns, by rw [hcolumns]; exact ha.nodup_columns_iff, fun hnodup => ?_⟩
    exact ⟨_, hlast, Document.lookup_resultShape hnodup⟩
  · have hcolumns := SearchIndex.Target.labels_of_compile hcompile
    refine ⟨hcolumns, by rw [hcolumns]; exact ha.nodup_columns_iff,
      fun hnodup answer row hrow => ?_⟩
    exact SearchIndex.exists_row_of_rowsFrom hnodup hrow

namespace Catalogue

/-- Groups by name and by price, with two metrics and a limit, have five columns in a select that
ranks them and four everywhere else, all with names of their own. -/
theorem totals_columns_differ_dearest :
    (∃ query q, table.compile dearest = .ok query ∧ query.totals = some q ∧
      q.statement.labels = ["name", "price", "sum_price", "count", "group_rank"] ∧
      q.statement.labels.Nodup ∧ q.KeepsColumns) ∧
    (∃ query q, documents.compile dearest = .ok query ∧ query.totals = some q ∧
      (q.dimensions ++ q.metrics).Nodup ∧ q.KeepsColumns) ∧
    ∃ query, index.compile dearest = .ok query ∧ (query.dimensions ++ query.metrics).Nodup ∧
      query.KeepsColumns := by
  have hread : Request.ofParams ⟨[("totals", "sum__price,count"), ("group_by", "name,price"),
      ("group_limit", "2")]⟩ product {} = .ok dearest := rfl
  obtain ⟨hsql, hdocument, hsearch⟩ := totals_columns_differ_iff hread
  have hgroups : dearest.aggregate.GroupsApart := by
    unfold Aggregate.GroupsApart
    decide +kernel
  have hrank : dearest.aggregate.RankApart := by
    unfold Aggregate.RankApart
    decide +kernel
  obtain ⟨_, hnodup, hkeeps⟩ := hsql table _ _ rfl rfl
  obtain ⟨_, hnodup', hkeeps'⟩ := hdocument documents _ _ rfl rfl
  obtain ⟨_, hnodup'', hkeeps''⟩ := hsearch index _ rfl
  have hdiffer := hnodup.2 ⟨hgroups, fun _ => hrank⟩
  exact ⟨⟨_, _, rfl, rfl, rfl, hdiffer, hkeeps hdiffer⟩,
    ⟨_, _, rfl, rfl, hnodup'.2 hgroups, hkeeps' (hnodup'.2 hgroups)⟩,
    ⟨_, rfl, hnodup''.2 hgroups, hkeeps'' (hnodup''.2 hgroups)⟩⟩

/-- Products that have a number of pieces. -/
def crate : Resource where
  name := "crate"
  storage := "crates"
  attributes := [{ name := "count", kind := .string }]

def crates (backend : Backend) : Registry where
  entries := [⟨crate, backend⟩]

/-- Groups by the number of pieces, counted. -/
def byCount : Request where
  aggregate := { metrics := [⟨.count, none⟩], groupBy := [⟨[], "count"⟩] }

/-- An attribute may be called `count`. Where groups by it are counted, two columns have that name:
in every store the number of rows is written over the value of the group. -/
theorem totals_columns_repeat_count :
    crate.check = .ok () ∧
    Request.ofParams ⟨[("group_by", "count")]⟩ crate {} = .ok byCount ∧
    (∀ backend, byCount.validate (crates backend) crate = .ok ()) ∧
    (∃ query q, Sql.Target.compile ⟨.postgres, [], crates (.relational .postgres []), crate⟩
        byCount = .ok query ∧ query.totals = some q ∧ q.statement.labels = ["count", "count"] ∧
      ∀ (m : Type → Type) [Monad m] (send : Sql.Connection m), send.totals q = do
        return (← send q.statement).map fun record => [("count", record.metricValue "count")]) ∧
    (∃ query q, Document.Target.compile ⟨[], crates (.document []), crate⟩ byCount = .ok query ∧
      query.totals = some q ∧ q.dimensions ++ q.metrics = ["count", "count"] ∧
      q.pipeline.getLast? = some (.project [("_id", .hidden), ("count", .shown)])) ∧
    ∃ query, SearchIndex.Target.compile ⟨crates .searchIndex, crate⟩ byCount = .ok query ∧
      query.dimensions ++ query.metrics = ["count", "count"] ∧
      ∀ answer, ∀ row ∈ query.totalsRows answer, ∃ value, row = [("count", value)] := by
  refine ⟨rfl, rfl, fun _ => rfl, ⟨_, _, rfl, rfl, rfl, fun m _ send => rfl⟩,
    ⟨_, _, rfl, rfl, rfl, rfl⟩, ⟨_, rfl, rfl, fun answer row hrow => ?_⟩⟩
  obtain ⟨bucket, _, hmem⟩ := List.mem_flatMap.1 hrow
  exact ⟨_, List.mem_singleton.1 hmem⟩

end Catalogue
end Listing

/-
# Groups come in the same order from every store

Rows of totals are compared by parent groups, then by metrics, then by the innermost group. A select
spells this out over its expressions, a select that ranks groups over the labels of what it ranks,
a pipeline over fields, and a search level by level. As every group and every metric is asked for
once, and no group is labelled like a metric or like the rank, each of these names exactly the value
that it means.
-/
import Listing.Document.Query
import Listing.Proofs.PageOrder
import Listing.Proofs.Semantics.GroupRows
import Listing.Proofs.TotalsCount
import Listing.Proofs.TotalsLabels

namespace Listing

/-- No metric is labelled like the rank. -/
theorem Metric.label_ne_rankLabel (m : Metric) : m.label ≠ Sql.rankLabel := by
  intro heq
  have hname := m.takeWhile_label
  rw [heq] at hname
  have hrank : ∀ f : MetricFunction, Sql.rankLabel.toList.takeWhile (· ≠ '_') ≠ f.name.toList := by
    intro f
    cases f <;> decide
  exact hrank m.function hname

namespace Aggregate

variable {a : Aggregate}

theorem mem_keys_of_mem_order {key : GroupKey × Direction} (hkey : key ∈ a.order) :
    key.1 ∈ a.keys := by
  unfold order at hkey
  split at hkey
  · cases hkey
  · rename_i innermost hlast
    rw [keys, List.mem_append]
    simp only [List.mem_append, List.mem_map, List.mem_singleton] at hkey
    rcases hkey with (⟨path, hpath, rfl⟩ | ⟨m, hm, rfl⟩) | rfl
    · exact .inl (List.mem_map_of_mem (List.dropLast_subset _ hpath))
    · exact .inr (List.mem_map_of_mem hm)
    · exact .inl (List.mem_map_of_mem (List.mem_of_getLast? hlast))

/-- No group is labelled like a metric or like the rank of groups. -/
def LabelsApart (a : Aggregate) : Prop :=
  ∀ path ∈ a.groupBy, path.label ≠ Sql.rankLabel ∧ ∀ m ∈ a.metrics, path.label ≠ m.label

/-- The labels of groups and metrics differ. -/
theorem IsRead.nodup_labels (ha : a.IsRead) (hapart : a.LabelsApart) :
    (a.keys.map GroupKey.label).Nodup := by
  rw [keys, List.map_append, List.map_map, List.map_map]
  refine List.nodup_append.2 ⟨ha.nodup_groupLabels, ha.nodup_metricLabels, ?_⟩
  intro label hlabel label' hlabel' heq
  obtain ⟨path, hpath, rfl⟩ := List.mem_map.1 hlabel
  obtain ⟨m, hm, rfl⟩ := List.mem_map.1 hlabel'
  exact (hapart path hpath).2 m hm heq

/-- None of the labels is that of the rank. -/
theorem IsRead.nodup_labels_rank (ha : a.IsRead) (hapart : a.LabelsApart) :
    (a.keys.map GroupKey.label ++ [Sql.rankLabel]).Nodup := by
  refine List.nodup_append.2 ⟨ha.nodup_labels hapart, List.nodup_singleton _, ?_⟩
  intro label hlabel label' hlabel' heq
  rw [List.mem_singleton.1 hlabel'] at heq
  obtain ⟨key, hkey, rfl⟩ := List.mem_map.1 hlabel
  rw [keys, List.mem_append, List.mem_map, List.mem_map] at hkey
  rcases hkey with ⟨path, hpath, rfl⟩ | ⟨m, _, rfl⟩
  · exact (hapart path hpath).1 heq
  · exact m.label_ne_rankLabel heq

end Aggregate

/-- An entry is found under its key, if no other entry has it. -/
theorem lookup_of_mem {κ β : Type} [BEq κ] [LawfulBEq κ] {entries : List (κ × β)}
    (hnodup : (entries.map (·.1)).Nodup) {key : κ} {b : β} (hmem : (key, b) ∈ entries) :
    entries.lookup key = some b := by
  obtain ⟨b', hfound⟩ := Option.isSome_iff_exists.1 (show (entries.lookup key).isSome = true from by
    rw [List.lookup_isSome_iff]
    exact ⟨(key, b), hmem, beq_self_eq_true key⟩)
  have hsame := List.inj_on_of_nodup_map hnodup (mem_of_lookup hfound) hmem rfl
  rw [hfound, (Prod.mk.inj hsame).2]

/-- In columns with the labels of some keys, the value of a key stands where its label does. -/
theorem lookup_columns {β : Type} {keys : List GroupKey} {columns : List (String × β)}
    (hlabels : columns.map (·.1) = keys.map GroupKey.label)
    (hnodup : (keys.map GroupKey.label).Nodup) {key : GroupKey} (hkey : key ∈ keys) :
    ∃ e, columns.lookup key.label = some e ∧ ∀ (value : β → Datum) (more : List Datum),
      (keys.zip (columns.map (value ·.2) ++ more)).lookup key = some (value e) := by
  induction keys generalizing columns with
  | nil => cases hkey
  | cons first keys ih =>
      cases columns with
      | nil => simp at hlabels
      | cons column columns =>
          obtain ⟨label, e⟩ := column
          rw [List.map_cons, List.map_cons, List.cons.injEq] at hlabels
          rw [List.map_cons, List.nodup_cons] at hnodup
          obtain ⟨rfl, hlabels⟩ := hlabels
          rcases List.mem_cons.1 hkey with rfl | hkey
          · exact ⟨e, by rw [List.lookup_cons, beq_self_eq_true], fun value more => by simp⟩
          · obtain ⟨e', hfound, hvalue⟩ := ih hlabels hnodup.2 hkey
            have hother : key.label ≠ first.label := fun heq =>
              hnodup.1 (heq ▸ List.mem_map_of_mem hkey)
            refine ⟨e', by rw [List.lookup_cons, beq_false_of_ne hother, hfound], ?_⟩
            intro value more
            have hne : key ≠ first := fun heq => hother (heq ▸ rfl)
            rw [List.map_cons, List.cons_append, List.zip_cons_cons, List.lookup_cons,
              beq_false_of_ne hne, hvalue]

namespace Sql

variable {engine : Engine} {a : Aggregate} {dimensions metrics : List Labelled}

/-- The order of groups names what stands for each key. -/
theorem groupOrder_eq (hdimensions : dimensions.map (·.1) = a.groupBy.map Path.label)
    (hmetrics : metrics.map (·.1) = a.metrics.map Metric.label) (expr : String → Expr) :
    groupOrder dimensions metrics expr =
      a.order.map fun key => ⟨expr key.1.label, key.2⟩ := by
  have hlast : dimensions.getLast?.map (·.1) = a.groupBy.getLast?.map Path.label := by
    rw [← List.getLast?_map, ← List.getLast?_map, hdimensions]
  have hparents : dimensions.dropLast.map (·.1) = a.groupBy.dropLast.map Path.label := by
    rw [List.map_dropLast, List.map_dropLast, hdimensions]
  rw [groupOrder, Aggregate.order]
  cases hinnermost : dimensions.getLast? with
  | none =>
      rw [hinnermost, Option.map_none, eq_comm, Option.map_eq_none_iff] at hlast
      rw [hlast]
      rfl
  | some innermost =>
      rw [hinnermost, Option.map_some, eq_comm, Option.map_eq_some_iff] at hlast
      obtain ⟨path, hpath, hlabel⟩ := hlast
      rw [hpath]
      dsimp only
      rw [List.map_append, List.map_append, List.map_map, List.map_map, List.map_singleton]
      have hgroups : dimensions.dropLast.map (fun d => (⟨expr d.1, .ascending⟩ : OrderTerm)) =
          (a.groupBy.dropLast.map Path.label).map fun label => ⟨expr label, .ascending⟩ := by
        rw [← hparents, List.map_map]
        rfl
      have hvalues : metrics.map (fun m => (⟨expr m.1, .descending⟩ : OrderTerm)) =
          (a.metrics.map Metric.label).map fun label => ⟨expr label, .descending⟩ := by
        rw [← hmetrics, List.map_map]
        rfl
      rw [hgroups, hvalues, ← hlabel, List.map_map, List.map_map]
      rfl

/-- A select of labelled expressions returns their values under their labels. -/
theorem output_labelled {s : Select} {columns : List Labelled}
    (hcolumns : s.columns = columns.map fun column => .named column.2 column.1)
    (group : List Scope) :
    s.output engine group =
      columns.map fun column => .value column.1 (engine.evalGroup group column.2) := by
  rw [Select.output, hcolumns, List.flatMap_map]
  exact List.map_eq_flatMap.symm

theorem values_eq_nil {columns : List Labelled} {label : String}
    (hlabel : label ∉ columns.map (·.1)) (value : Expr → Datum) :
    Output.values label (columns.map fun column => .value column.1 (value column.2)) = [] := by
  induction columns with
  | nil => rfl
  | cons column columns ih =>
      rw [List.map_cons, List.mem_cons, not_or] at hlabel
      rw [List.map_cons, Output.values_cons, if_neg (Ne.symm hlabel.1), ih hlabel.2]

/-- Under a label that no other column has there is one value. -/
theorem values_eq_singleton {columns : List Labelled} (hnodup : (columns.map (·.1)).Nodup)
    {label : String} {e : Expr} (hlookup : columns.lookup label = some e) (value : Expr → Datum) :
    Output.values label (columns.map fun column => .value column.1 (value column.2)) =
      [value e] := by
  induction columns with
  | nil => cases hlookup
  | cons column columns ih =>
      obtain ⟨other, e'⟩ := column
      rw [List.map_cons, List.nodup_cons] at hnodup
      rw [List.lookup_cons] at hlookup
      rw [List.map_cons, Output.values_cons]
      by_cases hlabel : label = other
      · rw [hlabel, beq_self_eq_true, Option.some.injEq] at hlookup
        rw [if_pos hlabel.symm, hlabel, values_eq_nil hnodup.1 value, hlookup]
      · rw [beq_false_of_ne hlabel] at hlookup
        rw [if_neg (Ne.symm hlabel), ih hnodup.2 hlookup]

section Labelled

variable (c : Collation) (ha : a.IsRead) (hapart : a.LabelsApart)
  (hdimensions : dimensions.map (·.1) = a.groupBy.map Path.label)
  (hmetrics : metrics.map (·.1) = a.metrics.map Metric.label)

include hdimensions hmetrics

theorem map_fst_columns : (dimensions ++ metrics).map (·.1) = a.keys.map GroupKey.label := by
  rw [List.map_append, hdimensions, hmetrics, Aggregate.keys, List.map_append, List.map_map,
    List.map_map]
  rfl

include ha hapart

/-- The expression under the label of a key has the value that the row has under the key. -/
theorem groupRow_labelled {s : Select} (more : List Labelled)
    (hcolumns : s.columns =
      ((dimensions ++ metrics) ++ more).map fun column => .named column.2 column.1)
    {key : GroupKey} (hkey : key ∈ a.keys) :
    ∃ e, (dimensions ++ metrics).lookup key.label = some e ∧
      ∀ group, s.groupRow a engine group key = engine.evalGroup group e := by
  obtain ⟨e, hlookup, hzip⟩ := lookup_columns (map_fst_columns hdimensions hmetrics)
    (ha.nodup_labels hapart) hkey
  refine ⟨e, hlookup, fun group => ?_⟩
  rw [Select.groupRow, Aggregate.row, output_labelled hcolumns, List.map_map, List.map_append]
  exact congrArg (Option.getD · .null) (hzip (engine.evalGroup group) _)

/-- What stands for the label of a key has the value that the row has under the key. -/
theorem evalGroup_labelled {s : Select}
    (hcolumns : s.columns = (dimensions ++ metrics).map fun column => .named column.2 column.1)
    {key : GroupKey} (hkey : key ∈ a.keys) (group : List Scope) :
    engine.evalGroup group
      (((dimensions ++ metrics).lookup key.label).getD (.ownColumn key.label)) =
        s.groupRow a engine group key := by
  obtain ⟨e, hlookup, hrow⟩ := groupRow_labelled ha hapart hdimensions hmetrics []
    (by rwa [List.append_nil]) hkey
  rw [hlookup, hrow]
  rfl

/-- A select of groups and metrics orders groups by their rows. -/
theorem compareGroups_select {s : Select}
    (hcolumns : s.columns = (dimensions ++ metrics).map fun column => .named column.2 column.1)
    (horder : s.orderBy = groupOrder dimensions metrics fun label =>
      ((dimensions ++ metrics).lookup label).getD (.ownColumn label)) (group group' : List Scope) :
    s.compareGroups c engine group group' =
      c.compareBy a.order (s.groupRow a engine group) (s.groupRow a engine group') := by
  have hvalue (group : List Scope) : ∀ key ∈ a.order,
      engine.evalGroup group (((dimensions ++ metrics).lookup key.1.label).getD
        (.ownColumn key.1.label)) = s.groupRow a engine group key.1 := fun key hkey =>
    evalGroup_labelled ha hapart hdimensions hmetrics hcolumns
      (Aggregate.mem_keys_of_mem_order hkey) group
  rw [Select.compareGroups, horder, groupOrder_eq hdimensions hmetrics, List.map_map]
  refine (c.compareBy_map (fun key : GroupKey => ((dimensions ++ metrics).lookup key.label).getD
    (.ownColumn key.label)) a.order _ _).trans ?_
  exact c.compareBy_congr (hvalue group) (hvalue group')

/-- A select that ranks groups orders them by their rows. -/
theorem compareGroups_ranked {r : Ranked} {rank : Expr}
    (hcolumns : r.inner.columns = ((dimensions ++ metrics).map fun column =>
      .named column.2 column.1) ++ [.named rank rankLabel])
    (horder : r.orderBy = groupOrder dimensions metrics fun label => .column r.aliasName label)
    (group group' : List Scope) :
    r.compareGroups c engine group group' =
      c.compareBy a.order (r.inner.groupRow a engine group) (r.inner.groupRow a engine group') := by
  have hnodup : (((dimensions ++ metrics) ++ [(rankLabel, rank)]).map (·.1)).Nodup := by
    rw [List.map_append, map_fst_columns hdimensions hmetrics, List.map_singleton]
    exact ha.nodup_labels_rank hapart
  have hcolumns : r.inner.columns = ((dimensions ++ metrics) ++ [(rankLabel, rank)]).map
      fun column => .named column.2 column.1 := by
    simp [hcolumns]
  have hvalue (group : List Scope) : ∀ key ∈ a.order,
      (r.env (r.inner.output engine group)).column r.aliasName key.1.label =
        r.inner.groupRow a engine group key.1 := by
    intro key hkey
    obtain ⟨e, hlookup, hrow⟩ := groupRow_labelled ha hapart hdimensions hmetrics
      [(rankLabel, rank)] hcolumns (Aggregate.mem_keys_of_mem_order hkey)
    have hlookup : ((dimensions ++ metrics) ++ [(rankLabel, rank)]).lookup key.1.label =
        some e := by
      rw [List.lookup_append, hlookup, Option.some_or]
    rw [hrow, Ranked.env, output_labelled hcolumns]
    dsimp only
    rw [values_eq_singleton hnodup hlookup (engine.evalGroup group)]
    exact if_pos rfl
  rw [Ranked.compareGroups, horder, groupOrder_eq hdimensions hmetrics, List.map_map]
  refine (c.compareBy_map (fun key : GroupKey => Expr.column r.aliasName key.label) a.order
    _ _).trans ?_
  exact c.compareBy_congr (hvalue group) (hvalue group')

end Labelled

/-- With a limit, the groups are ranked. -/
theorem totalsStatement_some (grouped : Select) (hnonempty : dimensions ≠ []) (limit : Nat) :
    totalsStatement grouped dimensions metrics (some limit) = .ranked {
      inner := { grouped with
        columns := grouped.columns ++ [.named (rankExpr dimensions.dropLast metrics) rankLabel] }
      aliasName := groupedAlias
      labels := (dimensions ++ metrics).map (·.1)
      rank := rankLabel
      bound := min limit maxBound
      orderBy := groupOrder dimensions metrics fun label => .column groupedAlias label } := by
  obtain ⟨innermost, hlast⟩ := Option.isSome_iff_exists.1 (List.getLast?_isSome.2 hnonempty)
  unfold totalsStatement
  rw [hlast]

/-- The columns of metrics. -/
def Target.metricColumns (t : Target) (paths : List Path)
    (arguments : List (Metric × Option Expr)) : List Labelled :=
  arguments.map fun (m, argument) =>
    (m.label, metricExpr (t.totalsKey paths) m.function argument)

/-- Groups and metrics have a property that passes from parts to the whole, if columns have it. -/
theorem Target.labelled_of_hereditary {t : Target} {written p : Expr → Prop} {ok : Value → Prop}
    (hp : Expr.Hereditary written p ok) (hcolumn : ∀ table name, p (.column table name))
    {arguments : List (Metric × Option Expr)}
    (hdimensions : a.groupBy.mapM t.dimension = .ok dimensions)
    (harguments : a.metrics.mapM t.metricArgument = .ok arguments) :
    ∀ labelled ∈ dimensions ++ t.metricColumns a.paths arguments, p labelled.2 := by
  refine List.forall_mem_append.2 ⟨fun labelled hmem => ?_, fun labelled hmem => ?_⟩
  · obtain ⟨path, _, hfound⟩ := Result.mem_of_mapM_eq_ok hdimensions hmem
    obtain ⟨name, rfl⟩ := t.dimension_eq_ok hfound
    exact hcolumn _ name
  · obtain ⟨found, hfound, rfl⟩ := List.mem_map.1 hmem
    exact t.metricExpr_of_hereditary hp harguments (List.subset_append_right a.groupBy _)
      (hcolumn _) (fun _ _ => hcolumn _) found hfound

/-- The select of totals with groups, before they are ordered and ranked. -/
def Target.grouped (t : Target) (selection : Selection) (paths : List Path)
    (dimensions metrics : List Labelled) : Select where
  columns := (dimensions ++ metrics).map fun column => .named column.2 column.1
  table := t.resource.storage
  joins := selection.joins ++ t.joinsOf ((t.noJoins totalsStem).addPaths t.registry paths)
  restriction := selection.restriction
  groupBy := dimensions.map (·.2)

/-- Groups are labelled by their paths. -/
theorem Target.map_fst_dimensions {t : Target} {paths : List Path}
    (hdimensions : paths.mapM t.dimension = .ok dimensions) :
    dimensions.map (·.1) = paths.map Path.label := by
  refine Result.map_eq_of_mapM_eq_ok (fun path found hfound => ?_) hdimensions
  obtain ⟨_, rfl⟩ := dimension_eq_ok hfound
  rfl

/-- The columns of metrics are labelled by the metrics. -/
theorem Target.map_fst_metricColumns {t : Target} {paths : List Path} {metrics : List Metric}
    {arguments : List (Metric × Option Expr)}
    (harguments : metrics.mapM t.metricArgument = .ok arguments) :
    (t.metricColumns paths arguments).map (·.1) = metrics.map Metric.label := by
  rw [metricColumns, List.map_map]
  refine Result.map_eq_of_mapM_eq_ok (fun m found hfound => ?_) harguments
  exact congrArg Metric.label (metricArgument_eq_ok hfound).1

/-- Totals are a statement over the select that computes them. -/
theorem Target.totals_eq_some {t : Target} {selection : Selection} {q : TotalsQuery}
    (htotals : t.totals selection a = .ok (some q)) :
    ∃ dimensions arguments, a.groupBy.mapM t.dimension = .ok dimensions ∧
      a.metrics.mapM t.metricArgument = .ok arguments ∧ q = {
        statement := totalsStatement
          (t.grouped selection a.paths dimensions (t.metricColumns a.paths arguments))
          dimensions (t.metricColumns a.paths arguments) a.groupLimit
        dimensions := dimensions.map (·.1)
        metrics := (t.metricColumns a.paths arguments).map (·.1) } := by
  unfold Target.totals at htotals
  split at htotals
  · cases htotals
  · obtain ⟨dimensions, hdimensions, hrest⟩ := Result.bind_eq_ok.1 htotals
    obtain ⟨arguments, harguments, hpure⟩ := Result.bind_eq_ok.1 hrest
    cases hpure
    exact ⟨dimensions, arguments, hdimensions, harguments, rfl⟩

/-- Totals with groups have a column for each group and for each metric, under its label. Only the
form of the statement depends on the limit. -/
theorem Target.totals_of_grouped {t : Target} {selection : Selection} {totals : Option TotalsQuery}
    (hgrouped : a.groupBy ≠ []) (htotals : t.totals selection a = .ok totals) :
    ∃ dimensions arguments, a.groupBy.mapM t.dimension = .ok dimensions ∧
      a.metrics.mapM t.metricArgument = .ok arguments ∧
      dimensions.map (·.1) = a.groupBy.map Path.label ∧
      (t.metricColumns a.paths arguments).map (·.1) = a.metrics.map Metric.label ∧
      ∀ limit, t.totals selection { a with groupLimit := limit } = .ok (some {
        statement := totalsStatement
          (t.grouped selection a.paths dimensions (t.metricColumns a.paths arguments))
          dimensions (t.metricColumns a.paths arguments) limit
        dimensions := dimensions.map (·.1)
        metrics := (t.metricColumns a.paths arguments).map (·.1) }) := by
  have hsome (limit : Option Nat) : { a with groupLimit := limit }.isEmpty = false := by
    simp [Aggregate.isEmpty, List.isEmpty_iff, hgrouped]
  have hunfold := htotals
  unfold Target.totals at hunfold
  rw [show a.isEmpty = false from hsome a.groupLimit] at hunfold
  obtain ⟨dimensions, hdimensions, hrest⟩ := Result.bind_eq_ok.1 hunfold
  obtain ⟨arguments, harguments, _⟩ := Result.bind_eq_ok.1 hrest
  refine ⟨dimensions, arguments, hdimensions, harguments, t.map_fst_dimensions hdimensions,
    t.map_fst_metricColumns harguments, ?_⟩
  intro limit
  unfold Target.totals
  rw [hsome limit]
  show (a.groupBy.mapM t.dimension >>= _) = _
  rw [hdimensions]
  show (a.metrics.mapM t.metricArgument >>= _) = _
  rw [harguments]
  rfl

end Sql
namespace Document

variable {a : Aggregate}

/-- The sort of groups names the field of each key. -/
theorem groupOrder_eq (hgrouped : a.groupBy ≠ []) :
    groupOrder (a.groupBy.map Path.label) (a.metrics.map Metric.label) =
      sortKeys (a.order.map fun key => (key.1.field, key.2)) := by
  obtain ⟨innermost, hlast⟩ := Option.isSome_iff_exists.1 (List.getLast?_isSome.2 hgrouped)
  rw [groupOrder, List.getLast?_map, hlast, Aggregate.order, hlast]
  dsimp only [Option.map_some]
  rw [← List.map_dropLast, List.map_append, List.map_append, List.map_map, List.map_map,
    List.map_map, List.map_map, List.map_singleton]
  rfl

/-- The field of a group is not that of a metric. -/
theorem idField_ne_label (label : String) (m : Metric) : idField label ≠ m.label := by
  intro heq
  have hname := m.takeWhile_label
  rw [← heq, idField, String.toList_append] at hname
  have hempty : m.function.name.toList ≠ [] := by
    cases m.function <;> decide
  exact hempty (hname.symm.trans rfl)

theorem isOneWay_order (a : Aggregate) : IsOneWay (a.order.map fun key => (key.1.field, key.2)) := by
  have hdirection : ∀ key ∈ a.order, (∃ path, key = (.group path, .ascending)) ∨
      ∃ m, key = (.metric m, .descending) := by
    intro key hkey
    unfold Aggregate.order at hkey
    split at hkey
    · cases hkey
    · simp only [List.mem_append, List.mem_map, List.mem_singleton] at hkey
      rcases hkey with (⟨path, _, rfl⟩ | ⟨m, _, rfl⟩) | rfl
      · exact .inl ⟨path, rfl⟩
      · exact .inr ⟨m, rfl⟩
      · exact .inl ⟨_, rfl⟩
  intro first hfirst later hlater hsame
  obtain ⟨key, hkey, rfl⟩ := List.mem_map.1 hfirst
  obtain ⟨key', hkey', rfl⟩ := List.mem_map.1 hlater
  rcases hdirection key hkey with ⟨path, rfl⟩ | ⟨m, rfl⟩
  · rcases hdirection key' hkey' with ⟨path', rfl⟩ | ⟨m', rfl⟩
    · rfl
    · exact absurd hsame.symm (idField_ne_label path.label m')
  · rcases hdirection key' hkey' with ⟨path', rfl⟩ | ⟨m', rfl⟩
    · exact absurd hsame (idField_ne_label path'.label m)
    · rfl

/-- Documents of groups are sorted by their rows. -/
theorem compareBy_groupOrder (c : Collation) (hgrouped : a.groupBy ≠ []) (d d' : Fields) :
    c.compareBy (groupOrder (a.groupBy.map Path.label) (a.metrics.map Metric.label)) d d' =
      c.compareBy a.order (groupRow d) (groupRow d') := by
  rw [groupOrder_eq hgrouped, compareBy_sortKeys_of_isOneWay (isOneWay_order a)]
  exact c.compareBy_map GroupKey.field a.order d d'

/-- What orders groups sorts them, and sorts them by nothing else. -/
theorem sort_mem_orderStages {dimensions : List String} (metrics : List String)
    (limit : Option Nat) (hgrouped : dimensions ≠ []) (keys : List (String × Direction)) :
    .sort keys ∈ orderStages dimensions metrics limit ↔ keys = groupOrder dimensions metrics := by
  rw [orderStages, if_neg (by simpa using hgrouped)]
  cases limit with
  | none => simp
  | some n =>
      dsimp only
      rw [Option.map_some, Option.getD_some, limitStages, List.mem_cons, Stage.sort.injEq]
      split
      · simp
      · simp

/-- The labels under which identities are collected. -/
def identityLabels (accumulators : List (String × Accumulator)) : List String :=
  accumulators.filterMap fun (label, accumulator) => match accumulator with
    | .identities => some label
    | _ => none

/-- The stages that make a document of each group. -/
def groupingStages (dimensions : List (String × String))
    (accumulators : List (String × Accumulator)) : List Stage :=
  [.group dimensions accumulators] ++
    (if (identityLabels accumulators).isEmpty then []
      else [.lengths (identityLabels accumulators)])

/-- The stages of totals with groups that follow those that find documents. -/
def totalsStages (a : Aggregate) (dimensions : List (String × String))
    (accumulators : List (String × Accumulator)) (limit : Option Nat) : List Stage :=
  groupingStages dimensions accumulators ++
    orderStages (a.groupBy.map Path.label) (a.metrics.map Metric.label) limit ++
    [.project (resultShape (a.groupBy.map Path.label) (a.metrics.map Metric.label))]

/-- Totals look up and unwind what their paths lead to, and then group. -/
theorem Target.totals_eq_some {t : Target} {base : List Stage} {q : TotalsQuery}
    (htotals : t.totals base a = .ok (some q)) :
    ∃ dimensions arguments,
      a.groupBy.mapM (fun path => do
        return (path.label, ← t.field totalsStem Param.groupBy path)) = .ok dimensions ∧
      a.metrics.mapM t.metricField = .ok arguments ∧
      let joins := (t.noJoins totalsStem).addPaths t.registry a.paths
      q.pipeline = base ++ (lookups joins ++ unwindStages joins) ++
        totalsStages a dimensions (arguments.map fun found =>
          (found.1.label, accumulator joins.hasToMany found.1.function found.2)) a.groupLimit := by
  unfold Target.totals at htotals
  split at htotals
  · cases htotals
  · obtain ⟨dimensions, hdimensions, hrest⟩ := Result.bind_eq_ok.1 htotals
    obtain ⟨arguments, harguments, hpure⟩ := Result.bind_eq_ok.1 hrest
    cases hpure
    have hlabels : dimensions.map (·.1) = a.groupBy.map Path.label := by
      refine Result.map_eq_of_mapM_eq_ok (fun path found hfound => ?_) hdimensions
      obtain ⟨field, _, hpure⟩ := Result.bind_eq_ok.1 hfound
      cases hpure
      rfl
    refine ⟨dimensions, arguments, hdimensions, harguments, ?_⟩
    dsimp only
    rw [totalsStages, ← hlabels]
    simp only [groupingStages, ← List.append_assoc]
    rfl

theorem sort_notMem_groupingStages (dimensions : List (String × String))
    (accumulators : List (String × Accumulator)) (keys : List (String × Direction)) :
    .sort keys ∉ groupingStages dimensions accumulators := by
  unfold groupingStages
  split <;> simp

/-- Totals with groups order them after grouping. Only these stages depend on the limit. -/
theorem Target.totals_of_grouped {t : Target} {base : List Stage} {totals : Option TotalsQuery}
    (hgrouped : a.groupBy ≠ []) (htotals : t.totals base a = .ok totals) :
    ∃ before dimensions accumulators,
      (∀ stage ∈ before, stage.finds) ∧
      dimensions.map (·.1) = a.groupBy.map Path.label ∧
      accumulators.map (·.1) = a.metrics.map Metric.label ∧
      ∀ limit, t.totals base { a with groupLimit := limit } = .ok (some {
        pipeline := base ++ before ++ totalsStages a dimensions accumulators limit
        dimensions := a.groupBy.map Path.label
        metrics := a.metrics.map Metric.label }) := by
  have hsome (limit : Option Nat) : { a with groupLimit := limit }.isEmpty = false := by
    simp [Aggregate.isEmpty, List.isEmpty_iff, hgrouped]
  unfold Target.totals at htotals
  rw [show a.isEmpty = false from hsome a.groupLimit] at htotals
  obtain ⟨dimensions, hdimensions, hrest⟩ := Result.bind_eq_ok.1 htotals
  obtain ⟨arguments, harguments, hrest⟩ := Result.bind_eq_ok.1 hrest
  have hlabels : dimensions.map (·.1) = a.groupBy.map Path.label := by
    refine Result.map_eq_of_mapM_eq_ok (fun path found hfound => ?_) hdimensions
    obtain ⟨field, _, hpure⟩ := Result.bind_eq_ok.1 hfound
    cases hpure
    rfl
  let joins := (t.noJoins totalsStem).addPaths t.registry a.paths
  let accumulators := arguments.map fun found =>
    (found.1.label, accumulator joins.hasToMany found.1.function found.2)
  refine ⟨lookups joins ++ unwindStages joins, dimensions, accumulators, fun stage hmem => ?_,
    hlabels, ?_, fun limit => ?_⟩
  · rcases List.mem_append.1 hmem with hlookup | hunwind
    · exact finds_lookups joins stage hlookup
    · obtain ⟨route, _, hstage⟩ := List.mem_filterMap.1 hunwind
      split at hstage
      · split at hstage <;> cases hstage
        rfl
      · cases hstage
  · rw [List.map_map]
    refine Result.map_eq_of_mapM_eq_ok (fun m found hfound => ?_) harguments
    obtain ⟨field, _, hpure⟩ := Result.bind_eq_ok.1 hfound
    cases hpure
    rfl
  · unfold Target.totals
    rw [hsome limit]
    show (a.groupBy.mapM _ >>= _) = _
    rw [hdimensions]
    show (a.metrics.mapM t.metricField >>= _) = _
    rw [harguments, totalsStages, ← hlabels]
    simp only [groupingStages, ← List.append_assoc]
    rfl

end Document
namespace SearchIndex

variable {a : Aggregate}

theorem compareBuckets_nil (c : Collation) (aggregations : Aggregations) :
    compareBuckets c aggregations [] [] = .eq := by
  unfold compareBuckets
  split <;> simp_all

/-- What metrics are ordered by as fields is what they are ordered by. -/
theorem bucketOrder_eq {metrics : List Metric} {fields : List MetricField}
    (hfields : fields.map (fun m => if m.field.isNone then countOrder else m.label) =
      metrics.map metricOrder) :
    bucketOrder fields =
      metrics.map (fun m => (metricOrder m, .descending)) ++ [(keyOrder, .ascending)] := by
  have hmap : fields.map (fun m =>
      (if m.field.isNone then countOrder else m.label, Direction.descending)) =
        (metrics.map metricOrder).map (·, .descending) := by
    rw [← hfields, List.map_map]
    rfl
  rw [bucketOrder, hmap, List.map_map]
  rfl

/-- Innermost buckets are compared by their metrics as the rows are. -/
theorem compareBy_metrics (c : Collation) {metrics : List Metric} {bucket bucket' : Bucket}
    {row row' : GroupRow} (hrow : ∀ m ∈ metrics, row (.metric m) = bucket (metricOrder m))
    (hrow' : ∀ m ∈ metrics, row' (.metric m) = bucket' (metricOrder m)) (d : Direction) :
    c.compareBy (metrics.map fun m => (metricOrder m, d)) bucket bucket' =
      c.compareBy (metrics.map fun m => (GroupKey.metric m, d)) row row' := by
  apply c.compareBy_of_values <;> rw [List.map_map, List.map_map]
  · exact List.map_congr_left fun m hm => Prod.ext (hrow m hm).symm rfl
  · exact List.map_congr_left fun m hm => Prod.ext (hrow' m hm).symm rfl

theorem order_cons_cons (metrics : List Metric) (p q : Path) (groups : List Path) :
    Aggregate.order { metrics, groupBy := p :: q :: groups } =
      (.group p, .ascending) :: Aggregate.order { metrics, groupBy := q :: groups } := by
  unfold Aggregate.order
  dsimp only
  rw [List.getLast?_cons_cons, List.dropLast_cons_cons]
  cases hlast : (q :: groups).getLast? with
  | none => simp at hlast
  | some innermost => rfl

/-- The last bucket below another one is the last of all. -/
theorem getLast?_cons_of_forall₂ {r : Path → Bucket → Prop} {q : Path} {groups : List Path}
    {bucket inner : Bucket} {path : List Bucket} (hpath : List.Forall₂ r (q :: groups) path)
    (hinner : inner ∈ path.getLast?) : inner ∈ (bucket :: path).getLast? := by
  cases hpath with
  | cons => rwa [List.getLast?_cons_cons]

/-- Nested buckets are ordered by the rows that they lead to. The induction is on the levels. -/
theorem compareBuckets_bucketLevels (c : Collation) {metrics : List Metric}
    {fields : List MetricField} {limit : Option Nat}
    (hfields : fields.map (fun m => if m.field.isNone then countOrder else m.label) =
      metrics.map metricOrder) {groups : List Path} {dimensions : List (String × String)}
    (hgrouped : groups ≠ []) (hlength : dimensions.length = groups.length)
    {path path' : List Bucket} {row row' : GroupRow}
    (hpath : List.Forall₂ (fun p bucket => row (.group p) = bucket keyOrder) groups path)
    (hpath' : List.Forall₂ (fun p bucket => row' (.group p) = bucket keyOrder) groups path')
    (hinner : ∀ bucket ∈ path.getLast?, ∀ m ∈ metrics, row (.metric m) = bucket (metricOrder m))
    (hinner' : ∀ bucket ∈ path'.getLast?, ∀ m ∈ metrics,
      row' (.metric m) = bucket (metricOrder m)) :
    compareBuckets c (bucketLevels fields limit dimensions) path path' =
      c.compareBy (Aggregate.order { metrics, groupBy := groups }) row row' := by
  induction groups generalizing dimensions path path' with
  | nil => exact absurd rfl hgrouped
  | cons p groups ih =>
      obtain ⟨⟨label, field⟩, dimensions, rfl⟩ := List.exists_cons_of_length_eq_add_one hlength
      cases hpath with
      | @cons _ bucket _ path hkey hpath =>
        cases hpath' with
        | @cons _ bucket' _ path' hkey' hpath' =>
          cases groups with
          | nil =>
              cases hpath
              cases hpath'
              cases dimensions with
              | cons => simp at hlength
              | nil =>
                  have hinner := hinner bucket rfl
                  have hinner' := hinner' bucket' rfl
                  show _ = c.compareBy (metrics.map (fun m => (.metric m, .descending)) ++
                    [(.group p, .ascending)]) row row'
                  rw [bucketLevels, compareBuckets, compareBuckets_nil, Ordering.then_eq,
                    bucketOrder_eq hfields, c.compareBy_append, c.compareBy_append,
                    compareBy_metrics c hinner hinner', c.compareBy_singleton,
                    c.compareBy_singleton, hkey, hkey']
          | cons q groups =>
              obtain ⟨d, dimensions, rfl⟩ :=
                List.exists_cons_of_length_eq_add_one (Nat.succ.inj hlength)
              have hrest := ih (List.cons_ne_nil q groups) (Nat.succ.inj hlength) hpath hpath'
                (fun b hb => hinner b (getLast?_cons_of_forall₂ hpath hb))
                (fun b hb => hinner' b (getLast?_cons_of_forall₂ hpath' hb))
              rw [bucketLevels, compareBuckets, hrest, order_cons_cons, c.compareBy_singleton,
                ← hkey, ← hkey']
              · rfl
              · exact List.cons_ne_nil d dimensions

/-- A path of buckets has the keys of its row. -/
theorem forall₂_groupRow (hnodup : a.groupBy.Nodup) {path : List Bucket}
    (hlength : path.length = a.groupBy.length) :
    List.Forall₂ (fun p bucket => groupRow a path (.group p) = bucket keyOrder) a.groupBy path := by
  refine List.forall₂_iff_zip.2 ⟨hlength.symm, fun {p bucket} hmem => ?_⟩
  have hnodup : ((a.groupBy.zip path).map (·.1)).Nodup := by
    rwa [List.map_fst_zip (le_of_eq hlength.symm)]
  rw [groupRow, lookup_of_mem hnodup hmem]
  rfl

/-- A metric keeps its label, and it has a field if it has a path. -/
theorem Target.metricField_eq_ok {t : Target} {m : Metric} {found : MetricField}
    (hfound : t.metricField m = .ok found) :
    found.label = m.label ∧ found.field.isSome = m.path.isSome := by
  obtain ⟨field, hfield, hpure⟩ := Result.bind_eq_ok.1 hfound
  cases hpure
  refine ⟨rfl, ?_⟩
  cases hpath : m.path with
  | none =>
      rw [hpath] at hfield
      cases hfield
      rfl
  | some p =>
      rw [hpath] at hfield
      obtain ⟨_, _, rfl⟩ := Result.map_eq_ok.1 hfield
      rfl

/-- The nested buckets of a request are ordered by the rows that they lead to. -/
theorem Target.compareBuckets_compile {t : Target} {request : Request} {query : Query}
    (c : Collation) (hgrouped : request.aggregate.groupBy ≠ [])
    (hnodup : request.aggregate.groupBy.Nodup) (hcompile : t.compile request = .ok query)
    {path path' : List Bucket} (hpath : path.length = request.aggregate.groupBy.length)
    (hpath' : path'.length = request.aggregate.groupBy.length) :
    compareBuckets c query.aggregations path path' =
      c.compareBy request.aggregate.order (groupRow request.aggregate path)
        (groupRow request.aggregate path') := by
  obtain ⟨_, _, dimensions, fields, -, -, hdimensions, hfields, rfl⟩ :=
    compile_eq_ok_iff.1 hcompile
  have hmetrics : fields.map (fun m => if m.field.isNone then countOrder else m.label) =
      request.aggregate.metrics.map metricOrder := by
    refine Result.map_eq_of_mapM_eq_ok (fun m found hfound => ?_) hfields
    obtain ⟨hlabel, hfield⟩ := metricField_eq_ok hfound
    rw [metricOrder, ← Option.not_isSome, ← Option.not_isSome, hlabel, hfield]
  refine compareBuckets_bucketLevels c hmetrics hgrouped (Result.length_of_mapM_eq_ok hdimensions)
    (forall₂_groupRow hnodup hpath) (forall₂_groupRow hnodup hpath') ?_ ?_
  · intro bucket hbucket m _
    rw [groupRow, Option.mem_def.1 hbucket]
    rfl
  · intro bucket hbucket m _
    rw [groupRow, Option.mem_def.1 hbucket]
    rfl

end SearchIndex

/-- The statement of grouped totals orders groups by their rows. -/
def Sql.Statement.OrdersGroups (c : Collation) (engine : Sql.Engine) (a : Aggregate) :
    Sql.Statement → Prop
  | .select s => ∀ group group', s.compareGroups c engine group group' =
      c.compareBy a.order (s.groupRow a engine group) (s.groupRow a engine group')
  | .ranked r => ∀ group group', r.compareGroups c engine group group' =
      c.compareBy a.order (r.inner.groupRow a engine group) (r.inner.groupRow a engine group')

/-- All stores order the rows of grouped totals in the same way: by the parent groups ascending,
from the outermost, then by the metrics descending, as they were asked for, and then by the
innermost group ascending. -/
theorem groups_ordered_alike (c : Collation) {totals groupBy : List String}
    {groupLimit : Option String} {request : Request}
    (hread : Aggregate.read totals groupBy groupLimit = .ok request.aggregate)
    (hgrouped : request.aggregate.groupBy ≠ []) (hapart : request.aggregate.LabelsApart) :
    (∀ (t : Sql.Target) (query : Sql.Query), t.compile request = .ok query →
      ∃ q, query.totals = some q ∧
        ∀ engine, q.statement.OrdersGroups c engine request.aggregate) ∧
    (∀ (t : Document.Target) (query : Document.Query), t.compile request = .ok query →
      ∃ q, query.totals = some q ∧ Document.sortsOf q.pipeline ≠ [] ∧
        ∀ keys ∈ Document.sortsOf q.pipeline, ∀ d d', c.compareBy keys d d' =
          c.compareBy request.aggregate.order (Document.groupRow d) (Document.groupRow d')) ∧
    ∀ (t : SearchIndex.Target) (query : SearchIndex.Query), t.compile request = .ok query →
      ∀ path path', path.length = request.aggregate.groupBy.length →
        path'.length = request.aggregate.groupBy.length →
        SearchIndex.compareBuckets c query.aggregations path path' =
          c.compareBy request.aggregate.order (SearchIndex.groupRow request.aggregate path)
            (SearchIndex.groupRow request.aggregate path') := by
  have ha := Aggregate.isRead_of_read hread
  refine ⟨fun t query hcompile => ?_, fun t query hcompile => ?_, fun t query hcompile => ?_⟩
  · obtain ⟨selection, _, hrest⟩ := Result.bind_eq_ok.1 hcompile
    obtain ⟨terms, _, hrest⟩ := Result.bind_eq_ok.1 hrest
    obtain ⟨found, htotals, hrest⟩ := Result.bind_eq_ok.1 hrest
    obtain ⟨eager, _, hrest⟩ := Result.bind_eq_ok.1 hrest
    cases hrest
    obtain ⟨dimensions, arguments, _, _, hdimensions, hmetrics, hall⟩ :=
      Sql.Target.totals_of_grouped hgrouped htotals
    have hfound := hall request.aggregate.groupLimit
    rw [htotals] at hfound
    refine ⟨_, Except.ok.inj hfound, fun engine => ?_⟩
    dsimp only
    have hnonempty : dimensions ≠ [] := by
      rintro rfl
      exact hgrouped (List.map_eq_nil_iff.1 hdimensions.symm)
    cases request.aggregate.groupLimit with
    | none =>
        exact Sql.compareGroups_select c ha hapart hdimensions hmetrics rfl rfl
    | some n =>
        rw [Sql.totalsStatement_some _ hnonempty]
        exact Sql.compareGroups_ranked c ha hapart hdimensions hmetrics rfl rfl
  · obtain ⟨condition, _, hrest⟩ := Result.bind_eq_ok.1 hcompile
    obtain ⟨order, _, hrest⟩ := Result.bind_eq_ok.1 hrest
    obtain ⟨fetch, _, hrest⟩ := Result.bind_eq_ok.1 hrest
    obtain ⟨found, htotals, hrest⟩ := Result.bind_eq_ok.1 hrest
    cases hrest
    obtain ⟨before, dimensions, accumulators, hbefore, -, -, hall⟩ :=
      Document.Target.totals_of_grouped hgrouped htotals
    have hfound := hall request.aggregate.groupLimit
    rw [htotals] at hfound
    have hlabels : request.aggregate.groupBy.map Path.label ≠ [] := by simpa using hgrouped
    have hsort (keys : List (String × Direction)) (limit : Option Nat) :=
      Document.sort_mem_orderStages (request.aggregate.metrics.map Metric.label) limit hlabels keys
    refine ⟨_, Except.ok.inj hfound, ?_, ?_⟩
    · refine List.ne_nil_of_mem (Document.mem_sortsOf.2 (List.mem_append_right _
        (List.mem_append_left _ (List.mem_append_right _ ((hsort _ _).2 rfl)))))
    · intro keys hkeys d d'
      have hmem := Document.mem_sortsOf.1 hkeys
      simp only [Document.totalsStages, List.mem_append, List.mem_singleton, reduceCtorEq,
        or_false] at hmem
      rcases hmem with (hbase | hfind) | hgroup | horder
      · exact absurd (List.mem_append.2 hbase)
          (Document.sort_notMem_of_finds (Document.finds_base _ condition) keys)
      · exact absurd hfind (Document.sort_notMem_of_finds hbefore keys)
      · exact absurd hgroup (Document.sort_notMem_groupingStages _ _ keys)
      · rw [(hsort keys _).1 horder]
        exact Document.compareBy_groupOrder c hgrouped d d'
  · intro path path' hpath hpath'
    exact t.compareBuckets_compile c hgrouped ha.groupBy hcompile hpath hpath'

namespace Catalogue

/-- The highest sums of prices among the products of each name, by price. -/
def dearest : Request where
  aggregate := {
    metrics := [⟨.sum, some ⟨[], "price"⟩⟩, ⟨.count, none⟩]
    groupBy := [⟨[], "name"⟩, ⟨[], "price"⟩]
    groupLimit := some 2 }

/-- Ranked groups, documents that are sorted twice, and two levels of buckets are in one order. -/
theorem groups_ordered_alike_dearest :
    (∃ query q, table.compile dearest = .ok query ∧ query.totals = some q ∧
      ∀ engine, q.statement.OrdersGroups Collation.standard engine dearest.aggregate) ∧
    (∃ query q keys, documents.compile dearest = .ok query ∧ query.totals = some q ∧
      Document.sortsOf q.pipeline = [keys, keys] ∧
      ∀ d d', Collation.standard.compareBy keys d d' = Collation.standard.compareBy
        dearest.aggregate.order (Document.groupRow d) (Document.groupRow d')) ∧
    ∃ query, index.compile dearest = .ok query ∧
      ∀ outer outer' inner inner' : SearchIndex.Bucket,
        SearchIndex.compareBuckets Collation.standard query.aggregations [outer, inner]
            [outer', inner'] =
          Collation.standard.compareBy dearest.aggregate.order
            (SearchIndex.groupRow dearest.aggregate [outer, inner])
            (SearchIndex.groupRow dearest.aggregate [outer', inner']) := by
  have hread : Aggregate.read ["sum__price,count"] ["name,price"] (some "2") =
      .ok dearest.aggregate := rfl
  have hapart : dearest.aggregate.LabelsApart := by
    unfold Aggregate.LabelsApart
    decide +kernel
  obtain ⟨hsql, hdocument, hsearch⟩ :=
    groups_ordered_alike Collation.standard hread (by decide) hapart
  obtain ⟨q, hq, horders⟩ := hsql table _ rfl
  obtain ⟨q', hq', _, hsorts⟩ := hdocument documents _ rfl
  cases hq'
  refine ⟨⟨_, q, rfl, hq, horders⟩, ⟨_, _, _, rfl, rfl, rfl, hsorts _ List.mem_cons_self⟩,
    ⟨_, rfl, ?_⟩⟩
  intro outer outer' inner inner'
  exact hsearch index _ rfl _ _ rfl rfl

end Catalogue
end Listing

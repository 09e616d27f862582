/-
# Groups that a select has ranked

A select with a limit numbers the groups of a parent by a window. The text of the window tells what
it is ordered by: the metrics, all of them descending, and nothing else. In the statement as a whole
the innermost group comes after the metrics, so the numbers may disagree with the final order, but
only where two groups have the same metrics. If the metrics decide which groups are the first ones
of their parent, these are kept, in whatever way the database numbers the others. If they do not,
the database may number the groups so that another one is kept.
-/
import Listing.Proofs.FirstGroups
import Listing.Proofs.GroupOrder
import Mathlib.Algebra.GroupWithZero.Nat

namespace Listing.Sql

/-- A letter that does not separate texts occurs in their sequence as often as in all of them. -/
theorem count_intercalate {letter : Char} {separator : String} (hletter : letter ∉ separator.toList)
    (parts : List String) : (separator.intercalate parts).toList.count letter =
      (parts.map (·.toList.count letter)).sum := by
  rw [String.toList_intercalate]
  induction parts with
  | nil => rfl
  | cons part parts ih =>
      cases parts with
      | nil => simp
      | cons next parts =>
          rw [List.map_cons, List.map_cons, List.intercalate_cons_cons, List.append_assoc,
            List.count_append, List.count_append, List.count_eq_zero_of_not_mem hletter,
            Nat.zero_add, ← List.map_cons, ih]
          rfl

namespace Window

/-- A letter that is in no text around the expressions of a partition is in the text around a
window, or else it belongs to a term of the order. -/
theorem count_text (w : Window) {letter : Char}
    (hletter : letter ∉ ("PARTITION BY " ++ ", " ++ hole ++ " ").toList) :
    w.text.toList.count letter = ("ROW_NUMBER() OVER (" ++ "ORDER BY " ++ ")").toList.count letter +
      (w.order.map fun e => (term e.2).toList.count letter).sum := by
  simp only [String.toList_append, List.mem_append, not_or] at hletter
  obtain ⟨⟨⟨hwords, hseparator⟩, hhole⟩, hblank⟩ := hletter
  have hholes : (holes ", " w.partition).toList.count letter = 0 := by
    rw [holes, count_intercalate hseparator]
    simp [List.count_eq_zero_of_not_mem hhole]
  have hpartition : (if w.partition.isEmpty then "" else
      "PARTITION BY " ++ holes ", " w.partition ++ " ").toList.count letter = 0 := by
    split
    · rfl
    · rw [String.toList_append, String.toList_append, List.count_append, List.count_append, hholes,
        List.count_eq_zero_of_not_mem hwords, List.count_eq_zero_of_not_mem hblank]
  unfold text
  simp only [String.toList_append, List.count_append] at hpartition ⊢
  simp only [hpartition, count_intercalate hseparator, List.map_map, Function.comp_def]
  omega

/-- One letter occurs in descending terms only. -/
theorem sum_count_term (order : List (Expr × Direction)) :
    (order.map fun e => (term e.2).toList.count 'D').sum =
      order.countP fun e => e.2 = .descending := by
  have hterm : ∀ d, (term d).toList.count 'D' = if d = .descending then 1 else 0 :=
    fun d => by cases d <;> decide
  induction order with
  | nil => rfl
  | cons e order ih =>
      rw [List.map_cons, List.sum_cons, ih, hterm, List.countP_cons, Nat.add_comm]
      simp only [decide_eq_true_eq]

/-- A window whose order is descending throughout is known from its expression: every term has one
letter of its own, and every descending term another one. -/
theorem eq_of_expr {partition partition' exprs : List Expr} {order : List (Expr × Direction)}
    (hexpr : Window.expr ⟨partition, order⟩ =
      Window.expr ⟨partition', exprs.map (·, .descending)⟩) :
    partition = partition' ∧ order = exprs.map (·, .descending) := by
  obtain ⟨htext, harguments⟩ := Expr.template.inj hexpr
  have hcount (letter : Char) (hletter : letter ∉ ("PARTITION BY " ++ ", " ++ hole ++ " ").toList) :
      (order.map fun e => (term e.2).toList.count letter).sum =
        exprs.length * (term .descending).toList.count letter := by
    have hcounts := congrArg (fun s : String => s.toList.count letter) htext
    rw [count_text _ hletter, count_text _ hletter, List.map_map] at hcounts
    simpa [Function.comp_def] using Nat.add_left_cancel hcounts
  have hlength : order.length = exprs.length := by
    have hterm : ∀ d, (term d).toList.count 'S' = 1 := fun d => by cases d <;> decide
    simpa [hterm] using hcount 'S' (by decide)
  have hdescending : order.countP (fun e => e.2 = .descending) = order.length := by
    have hone : (term .descending).toList.count 'D' = 1 := by decide
    rw [← sum_count_term, hcount 'D' (by decide), hlength, hone, Nat.mul_one]
  have hexprs : (exprs.map fun e => (e, Direction.descending)).map (·.1) = exprs := by
    simp [Function.comp_def]
  obtain ⟨hpartition, horder⟩ := List.append_inj' (harguments.trans (by rw [hexprs]))
    (by simpa using hlength)
  refine ⟨hpartition, ?_⟩
  rw [← show order.map (·.1) = exprs from horder, List.map_map]
  refine (List.map_id order).symm.trans (List.map_congr_left fun e he => ?_)
  exact Prod.ext rfl (of_decide_eq_true (List.countP_eq_length.1 hdescending e he))

end Window

/-- The rank of a group is its number in a window over the parent groups. -/
theorem rankExpr_eq (parents metrics : List Labelled) :
    rankExpr parents metrics =
      Window.expr ⟨parents.map (·.2), (metrics.map (·.2)).map (·, .descending)⟩ := by
  have hholes : holes ", " (parents.map (·.2)) = holes ", " parents := by
    rw [holes, holes, List.map_map]
    rfl
  have hterms : ((metrics.map (·.2)).map fun e => (e, Direction.descending)).map
      (fun e => Window.term e.2) = metrics.map fun _ => hole ++ " DESC" := by
    rw [List.map_map, List.map_map]
    rfl
  have hexprs : ((metrics.map (·.2)).map fun e => (e, Direction.descending)).map (·.1) =
      metrics.map (·.2) := by
    rw [List.map_map]
    exact List.map_id _
  unfold rankExpr Window.expr Window.text
  dsimp only
  rw [hholes, hterms, hexprs, List.isEmpty_map]

variable {c : Collation} {engine : Engine} {db : Database} {a : Aggregate} {grouped : Select}
  {dimensions metrics : List Labelled}

/-- A select has the groups and metrics of totals as its columns and groups by plain columns. -/
structure Select.IsGrouped (a : Aggregate) (grouped : Select) (dimensions metrics : List Labelled) :
    Prop where
  groupLabels : dimensions.map (·.1) = a.groupBy.map Path.label
  metricLabels : metrics.map (·.1) = a.metrics.map Metric.label
  columns : grouped.columns = (dimensions ++ metrics).map fun column => .named column.2 column.1
  groupBy : grouped.groupBy = dimensions.map (·.2)
  plain : ∀ d ∈ dimensions, ∃ table name, d.2 = .column table name
  orderBy : grouped.orderBy = []
  limit : grouped.limit = none
  offset : grouped.offset = none

namespace Select.IsGrouped

variable (hs : grouped.IsGrouped a dimensions metrics) (ha : a.IsRead) (hapart : a.LabelsApart)

include hs

/-- What stands for a label. -/
theorem lookup_label (ha : a.IsRead) (hapart : a.LabelsApart) {column : Labelled}
    (hcolumn : column ∈ dimensions ++ metrics) :
    ((dimensions ++ metrics).lookup column.1).getD (.ownColumn column.1) = column.2 := by
  have hnodup : ((dimensions ++ metrics).map (·.1)).Nodup := by
    rw [map_fst_columns hs.groupLabels hs.metricLabels]
    exact ha.nodup_labels hapart
  rw [lookup_of_mem hnodup hcolumn]
  rfl

include ha hapart

/-- The expression under a label has the value that the row has under the key of that label. -/
theorem map_evalGroup {columns : List Labelled} {keys : List GroupKey}
    (hcolumns : columns ⊆ dimensions ++ metrics) (hkeys : keys ⊆ a.keys)
    (hlabels : columns.map (·.1) = keys.map GroupKey.label) (group : List Scope) :
    columns.map (fun column => engine.evalGroup group column.2) =
      keys.map (grouped.groupRow a engine group) := by
  have hnamed : columns.map (fun column => engine.evalGroup group column.2) =
      (columns.map (·.1)).map fun label => engine.evalGroup group
        (((dimensions ++ metrics).lookup label).getD (.ownColumn label)) := by
    rw [List.map_map]
    refine List.map_congr_left fun column hcolumn => ?_
    exact congrArg _ (hs.lookup_label ha hapart (hcolumns hcolumn)).symm
  rw [hnamed, hlabels, List.map_map]
  refine List.map_congr_left fun key hkey => ?_
  exact evalGroup_labelled ha hapart hs.groupLabels hs.metricLabels hs.columns (hkeys hkey) group

theorem map_evalGroup_dimensions (group : List Scope) :
    dimensions.map (fun d => engine.evalGroup group d.2) =
      a.groupBy.map fun path => grouped.groupRow a engine group (.group path) := by
  have hkeys : a.groupBy.map .group ⊆ a.keys := List.subset_append_left _ _
  rw [hs.map_evalGroup ha hapart (List.subset_append_left _ _) hkeys _ group, List.map_map]
  · rfl
  · rw [hs.groupLabels, List.map_map]
    rfl

/-- Parts of a window over the parent groups are the parents of rows. -/
theorem part_eq_parent (group : List Scope) (order : List (Expr × Direction)) :
    Window.part engine ⟨dimensions.dropLast.map (·.2), order⟩ group =
      a.parent (grouped.groupRow a engine group) := by
  have hvalues : (dimensions.map fun d => engine.evalGroup group d.2).dropLast = _ :=
    congrArg List.dropLast (hs.map_evalGroup_dimensions ha hapart group)
  rw [← List.map_dropLast, ← List.map_dropLast] at hvalues
  rw [Window.part, List.map_map]
  exact hvalues

/-- A window over the metrics compares the metrics of rows. -/
theorem compareGroups_window (c : Collation) (partition : List Expr) (group group' : List Scope) :
    Window.compareGroups c engine ⟨partition, (metrics.map (·.2)).map (·, .descending)⟩ group
        group' =
      c.compareOn a.metricOrder (grouped.groupRow a engine) group group' := by
  have hmetrics (group : List Scope) : metrics.map (fun m => engine.evalGroup group m.2) =
      a.metrics.map fun m => grouped.groupRow a engine group (.metric m) := by
    have hkeys : a.metrics.map .metric ⊆ a.keys := List.subset_append_right _ _
    rw [hs.map_evalGroup ha hapart (List.subset_append_right _ _) hkeys _ group, List.map_map]
    · rfl
    · rw [hs.metricLabels, List.map_map]
      rfl
  have hkeys (group : List Scope) :
      ((metrics.map (·.2)).map fun e => (e, Direction.descending)).map
          (fun key => (engine.evalGroup group key.1, key.2)) =
        a.metricOrder.map fun key => (grouped.groupRow a engine group key.1, key.2) := by
    have hvalues := congrArg (List.map fun x => (x, Direction.descending)) (hmetrics group)
    rw [List.map_map, List.map_map] at hvalues
    rw [List.map_map, List.map_map, Aggregate.metricOrder, List.map_map]
    exact hvalues
  exact c.compareBy_of_values (hkeys group) (hkeys group')

omit ha hapart in
theorem dimensions_ne_nil (hgrouped : a.groupBy ≠ []) : dimensions ≠ [] := by
  rintro rfl
  exact hgrouped (List.map_eq_nil_iff.1 hs.groupLabels.symm)

omit ha hapart in
/-- The groups of the select are those of the rows with the same values. -/
theorem groups_eq (found : List Scope) (hgrouped : a.groupBy ≠ []) :
    let value (scope : Scope) := dimensions.map fun d => engine.evalGroup [scope] d.2
    grouped.groups engine found = (found.map value).eraseDups.map fun v =>
      found.filter fun scope => value scope == v := by
  have hsome : grouped.groupBy.isEmpty = false := by
    rw [hs.groupBy, List.isEmpty_map]
    exact List.isEmpty_eq_false_iff.2 (hs.dimensions_ne_nil hgrouped)
  rw [Select.groups, hsome, hs.groupBy]
  simp only [List.map_map]
  rfl

/-- Different groups have different values. -/
theorem nodup_groups (engine : Engine) (found : List Scope) (hgrouped : a.groupBy ≠ []) :
    ((grouped.groups engine found).map fun group =>
      a.groupBy.map fun path => grouped.groupRow a engine group (.group path)).Nodup := by
  let value (scope : Scope) := dimensions.map fun d => engine.evalGroup [scope] d.2
  -- Plain columns have the same value in all rows of a group.
  have hvalue : ∀ v ∈ (found.map value).eraseDups,
      dimensions.map (fun d => engine.evalGroup (found.filter fun scope => value scope == v) d.2) =
        v := by
    intro v hv
    obtain ⟨scope, hscope, hsame⟩ := List.mem_map.1 (List.mem_eraseDups.1 hv)
    cases hgroup : found.filter fun scope => value scope == v with
    | nil =>
        have hmem : scope ∈ found.filter fun scope => value scope == v :=
          List.mem_filter.2 ⟨hscope, beq_iff_eq.2 hsame⟩
        rw [hgroup] at hmem
        cases hmem
    | cons first rest =>
        have hfirst : first ∈ found.filter fun scope => value scope == v :=
          hgroup ▸ List.mem_cons_self
        have hkey : value first = v := beq_iff_eq.1 (List.mem_filter.1 hfirst).2
        refine Eq.trans (List.map_congr_left fun d hd => ?_) hkey
        obtain ⟨table, name, hcolumn⟩ := hs.plain d hd
        rw [hcolumn]
        rfl
  rw [hs.groups_eq found hgrouped, List.map_map]
  have hvalues : (found.map value).eraseDups.map ((fun group => a.groupBy.map fun path =>
      grouped.groupRow a engine group (.group path)) ∘ fun v =>
        found.filter fun scope => value scope == v) = (found.map value).eraseDups := by
    refine (List.map_congr_left fun v hv => ?_).trans (List.map_id _)
    exact (hs.map_evalGroup_dimensions ha hapart _).symm.trans (hvalue v hv)
  rw [hvalues]
  exact nodup_eraseDups _

end Select.IsGrouped

/-- Groups are ordered by what their labels stand for. -/
theorem exists_mem_of_mem_groupOrder {expr : String → Expr} {term : OrderTerm}
    (hterm : term ∈ groupOrder dimensions metrics expr) :
    ∃ column ∈ dimensions ++ metrics, term.expr = expr column.1 := by
  unfold groupOrder at hterm
  cases hlast : dimensions.getLast? with
  | none => simp [hlast] at hterm
  | some innermost =>
      rw [hlast] at hterm
      simp only [List.mem_append, List.mem_map, List.mem_singleton] at hterm
      rcases hterm with (⟨d, hd, rfl⟩ | ⟨m, hm, rfl⟩) | rfl
      · exact ⟨d, List.mem_append_left _ (List.dropLast_subset _ hd), rfl⟩
      · exact ⟨m, List.mem_append_right _ hm, rfl⟩
      · exact ⟨innermost, List.mem_append_left _ (List.mem_of_getLast? hlast), rfl⟩

/-- The select that orders all groups. -/
def orderedTotals (grouped : Select) (dimensions metrics : List Labelled) : Select :=
  { grouped with
    orderBy := groupOrder dimensions metrics fun label =>
      ((dimensions ++ metrics).lookup label).getD (.ownColumn label) }

/-- The select that keeps the first groups of each parent. -/
def rankedTotals (grouped : Select) (dimensions metrics : List Labelled) (limit : Nat) :
    Ranked where
  inner := { grouped with
    columns := grouped.columns ++ [.named (rankExpr dimensions.dropLast metrics) rankLabel] }
  aliasName := groupedAlias
  labels := (dimensions ++ metrics).map (·.1)
  rank := rankLabel
  bound := min limit maxBound
  orderBy := groupOrder dimensions metrics fun label => .column groupedAlias label

namespace Select.IsGrouped

variable (hs : grouped.IsGrouped a dimensions metrics) (ha : a.IsRead) (hapart : a.LabelsApart)
  (hgrouped : a.groupBy ≠ []) {n : Nat}

include hs

/-- The rank is not part of a row. -/
theorem groupRow_inner (group : List Scope) :
    (rankedTotals grouped dimensions metrics n).inner.groupRow a engine group =
      grouped.groupRow a engine group := by
  have hlength : a.keys.length = ((grouped.output engine group).map Output.datum).length := by
    have hlabels := congrArg List.length (map_fst_columns hs.groupLabels hs.metricLabels)
    rw [List.length_map, List.length_map] at hlabels
    rw [output_labelled hs.columns, List.length_map, List.length_map, hlabels]
  have houtput : (rankedTotals grouped dimensions metrics n).inner.output engine group =
      grouped.output engine group ++ [.value rankLabel
        (engine.evalGroup group (rankExpr dimensions.dropLast metrics))] :=
    List.flatMap_append
  have hzip := @List.zip_append _ _ a.keys [] _
    [engine.evalGroup group (rankExpr dimensions.dropLast metrics)] hlength
  rw [List.append_nil, List.zip_nil_left, List.append_nil] at hzip
  funext key
  rw [Select.groupRow, Select.groupRow, houtput, List.map_append, Aggregate.row, Aggregate.row]
  exact congrArg (fun entries => (entries.lookup key).getD .null) hzip

/-- What a select of all groups lists. -/
theorem lists_ordered_iff (ha : a.IsRead) (hapart : a.LabelsApart) (groups : List (List Scope)) :
    (orderedTotals grouped dimensions metrics).Lists c engine db groups ↔
      (orderedTotals grouped dimensions metrics).Distinct ∧
      (orderedTotals grouped dimensions metrics).Resolves ∧
      groups.Perm (grouped.groups engine (grouped.found engine db)) ∧
      Sorted (c.compareOn a.order (grouped.groupRow a engine)) groups := by
  have hcut (all : List (List Scope)) :
      (orderedTotals grouped dimensions metrics).cut all = all := by
    simp [Select.cut, orderedTotals, hs.limit, hs.offset]
  have hcompare : (orderedTotals grouped dimensions metrics).compareGroups c engine =
      c.compareOn a.order (grouped.groupRow a engine) := by
    funext group group'
    exact compareGroups_select (s := orderedTotals grouped dimensions metrics) c ha hapart
      hs.groupLabels hs.metricLabels hs.columns rfl group group'
  constructor
  · rintro ⟨hdistinct, hresolves, all, hperm, hsorted, rfl⟩
    rw [hcompare] at hsorted
    rw [hcut]
    exact ⟨hdistinct, hresolves, hperm, hsorted⟩
  · rintro ⟨hdistinct, hresolves, hperm, hsorted⟩
    exact ⟨hdistinct, hresolves, groups, hperm, hcompare ▸ hsorted, (hcut groups).symm⟩

/-- Groups are ordered by what the columns are computed of. -/
theorem resolves_ordered (ha : a.IsRead) (hapart : a.LabelsApart) (hresolves : grouped.Resolves) :
    (orderedTotals grouped dimensions metrics).Resolves where
  joins := hresolves.joins
  restriction := hresolves.restriction
  columns := hresolves.columns
  groupBy := hresolves.groupBy
  orderBy term hterm := by
    dsimp only [orderedTotals] at hterm
    obtain ⟨column, hcolumn, hexpr⟩ := exists_mem_of_mem_groupOrder hterm
    rw [hexpr, hs.lookup_label ha hapart hcolumn]
    refine hresolves.columns (.named column.2 column.1) ?_
    rw [hs.columns]
    exact List.mem_map_of_mem hcolumn

/-- All groups are listed, unless two tables have the same name. -/
theorem exists_shows_ordered (ha : a.IsRead) (hapart : a.LabelsApart) (hlinear : c.IsLinear)
    (hresolves : grouped.Resolves) :
    (∃ shown, (Statement.select (orderedTotals grouped dimensions metrics)).Shows c engine db a
      shown) ↔ grouped.Distinct := by
  have hcmp := hlinear.transCmp_compareOn a.order (grouped.groupRow a engine)
  constructor
  · rintro ⟨_, groups, hlists, _⟩
    exact hlists.distinct
  · intro hdistinct
    obtain ⟨groups, hperm, hsorted⟩ := @exists_sorted _ _ hcmp
      (grouped.groups engine (grouped.found engine db))
    exact ⟨_, groups, (hs.lists_ordered_iff ha hapart groups).2
      ⟨hdistinct, hs.resolves_ordered ha hapart hresolves, hperm, hsorted⟩, rfl⟩

/-- What a select lists before its groups are ranked. -/
theorem lists_inner_iff (hgrouped : a.groupBy ≠ []) (groups : List (List Scope)) :
    (rankedTotals grouped dimensions metrics n).inner.Lists c engine db groups ↔
      (rankedTotals grouped dimensions metrics n).inner.Distinct ∧
      (rankedTotals grouped dimensions metrics n).inner.Resolves ∧
      groups.Perm (grouped.groups engine (grouped.found engine db)) := by
  have hcut (all : List (List Scope)) :
      (rankedTotals grouped dimensions metrics n).inner.cut all = all := by
    simp [Select.cut, rankedTotals, hs.limit, hs.offset]
  have hgroups (found : List Scope) :
      (rankedTotals grouped dimensions metrics n).inner.groups engine found =
        grouped.groups engine found := by
    have hsome : grouped.groupBy.isEmpty = false := by
      rw [hs.groupBy, List.isEmpty_map]
      exact List.isEmpty_eq_false_iff.2 (hs.dimensions_ne_nil hgrouped)
    unfold Select.groups
    rw [hsome, show (rankedTotals grouped dimensions metrics n).inner.groupBy.isEmpty = false from
      hsome]
    rfl
  have hsorted : Sorted ((rankedTotals grouped dimensions metrics n).inner.compareGroups c engine)
      groups := by
    have halike (group group' : List Scope) :
        (rankedTotals grouped dimensions metrics n).inner.compareGroups c engine group group' =
          .eq := by
      rw [Select.compareGroups, show (rankedTotals grouped dimensions metrics n).inner.orderBy = []
        from hs.orderBy]
      rfl
    exact List.pairwise_of_forall fun group group' => by rw [halike]; rfl
  constructor
  · rintro ⟨hdistinct, hresolves, all, hperm, _, rfl⟩
    rw [hcut]
    exact ⟨hdistinct, hresolves, (hgroups _) ▸ hperm⟩
  · rintro ⟨hdistinct, hresolves, hperm⟩
    exact ⟨hdistinct, hresolves, groups, (hgroups _).symm ▸ hperm, hsorted, (hcut groups).symm⟩

include ha hapart

/-- A ranked group has the row that it has where all groups are listed. -/
theorem groupRow_ranked (group : List Scope) :
    (rankedTotals grouped dimensions metrics n).groupRow engine a group =
      grouped.groupRow a engine group := by
  have hcolumns : (rankedTotals grouped dimensions metrics n).inner.columns =
      ((dimensions ++ metrics) ++ [(rankLabel, rankExpr dimensions.dropLast metrics)]).map
        fun column => .named column.2 column.1 := by
    rw [List.map_append, ← hs.columns]
    rfl
  have hlabels := map_fst_columns hs.groupLabels hs.metricLabels
  have hnodup : (((dimensions ++ metrics) ++
      [(rankLabel, rankExpr dimensions.dropLast metrics)]).map (·.1)).Nodup := by
    rw [List.map_append, hlabels, List.map_singleton]
    exact ha.nodup_labels_rank hapart
  rw [Ranked.groupRow, Select.groupRow, output_labelled hs.columns, output_labelled hcolumns,
    List.map_map]
  refine congrArg a.row ?_
  show ((dimensions ++ metrics).map (·.1)).map _ = _
  rw [List.map_map]
  refine List.map_congr_left fun column hcolumn => ?_
  have hlookup := lookup_of_mem hnodup (List.mem_append_left _ hcolumn)
  have hvalues := values_eq_singleton hnodup hlookup (engine.evalGroup group)
  show (Ranked.env _ _).column groupedAlias column.1 = engine.evalGroup group column.2
  rw [Ranked.env]
  dsimp only
  rw [hvalues]
  exact if_pos rfl

/-- The window over the parents that is descending by the metrics is the only one that ranks. -/
theorem window_eq {w : Window}
    (hcolumn : .named w.expr rankLabel ∈
      (rankedTotals grouped dimensions metrics n).inner.columns) :
    w = ⟨dimensions.dropLast.map (·.2), (metrics.map (·.2)).map (·, .descending)⟩ := by
  have hcolumn : .named w.expr rankLabel ∈ grouped.columns ++
      [.named (rankExpr dimensions.dropLast metrics) rankLabel] := hcolumn
  rw [hs.columns, List.mem_append, List.mem_map, List.mem_singleton] at hcolumn
  rcases hcolumn with ⟨column, hcolumn, hnamed⟩ | hnamed
  · have hlabels := ha.nodup_labels_rank hapart
    rw [← map_fst_columns hs.groupLabels hs.metricLabels] at hlabels
    have hrank := (List.nodup_append.1 hlabels).2.2 column.1 (List.mem_map_of_mem hcolumn) rankLabel
      (List.mem_singleton_self _)
    exact absurd (Projection.named.inj hnamed).2 hrank
  · have hexpr := (Projection.named.inj hnamed).1
    rw [rankExpr_eq] at hexpr
    obtain ⟨partition, order⟩ := w
    obtain ⟨rfl, rfl⟩ := Window.eq_of_expr hexpr
    rfl

/-- What a select of ranked groups lists: the first groups of each parent, in an arrangement by the
metrics, put in the order of totals. -/
theorem lists_ranked_iff (hgrouped : a.groupBy ≠ []) (groups : List (List Scope)) :
    (rankedTotals grouped dimensions metrics n).Lists c engine db groups ↔
      (rankedTotals grouped dimensions metrics n).inner.Distinct ∧
      (rankedTotals grouped dimensions metrics n).inner.Resolves ∧
      (∃ arranged : List (List Scope),
        arranged.Perm (grouped.groups engine (grouped.found engine db)) ∧
        (∀ parent, Sorted (c.compareOn a.metricOrder (grouped.groupRow a engine))
          (arranged.filter ((a.parent ∘ grouped.groupRow a engine) · = parent))) ∧
        groups.Perm (firstOfEach (a.parent ∘ grouped.groupRow a engine) (min n maxBound)
          arranged)) ∧
      Sorted (c.compareOn a.order (grouped.groupRow a engine)) groups := by
  let w : Window :=
    ⟨dimensions.dropLast.map (·.2), (metrics.map (·.2)).map (·, .descending)⟩
  have hpart : w.part engine = a.parent ∘ grouped.groupRow a engine :=
    funext fun group => hs.part_eq_parent ha hapart group _
  have hwindow : w.compareGroups c engine = c.compareOn a.metricOrder (grouped.groupRow a engine) :=
    funext fun group => funext fun group' => hs.compareGroups_window ha hapart c _ group group'
  have hcompare : (rankedTotals grouped dimensions metrics n).compareGroups c engine =
      c.compareOn a.order (grouped.groupRow a engine) := by
    funext group group'
    have hcolumns : (rankedTotals grouped dimensions metrics n).inner.columns =
        ((dimensions ++ metrics).map fun column => .named column.2 column.1) ++
          [.named (rankExpr dimensions.dropLast metrics) rankLabel] := by
      rw [← hs.columns]
      rfl
    rw [compareGroups_ranked c ha hapart hs.groupLabels hs.metricLabels hcolumns rfl,
      hs.groupRow_inner, hs.groupRow_inner]
    rfl
  have hfirst (arranged : List (List Scope)) :
      ((numbered (a.parent ∘ grouped.groupRow a engine) [] arranged).filter fun found =>
        found.2 ≤ (rankedTotals grouped dimensions metrics n).bound).map (·.1) =
      firstOfEach (a.parent ∘ grouped.groupRow a engine) (min n maxBound) arranged := by
    refine congrArg (List.map _) (List.filter_congr fun found _ => ?_)
    show decide ((found.2 : Int) ≤ min (n : Int) (maxBound : Int)) = _
    rw [decide_eq_decide]
    omega
  constructor
  · rintro ⟨⟨all, arranged, w', hinner, hcolumn, ⟨harranged, hclasses⟩, hkept⟩, hsorted⟩
    obtain rfl : w' = w := hs.window_eq ha hapart hcolumn
    obtain ⟨hdistinct, hresolves, hperm⟩ := (hs.lists_inner_iff hgrouped all).1 hinner
    rw [hpart, hfirst] at hkept
    rw [hpart, hwindow] at hclasses
    rw [hcompare] at hsorted
    exact ⟨hdistinct, hresolves, ⟨arranged, harranged.trans hperm, hclasses, hkept⟩, hsorted⟩
  · rintro ⟨hdistinct, hresolves, ⟨arranged, harranged, hclasses, hkept⟩, hsorted⟩
    refine ⟨⟨_, arranged, w, (hs.lists_inner_iff hgrouped _).2 ⟨hdistinct, hresolves, .refl _⟩,
      ?_, ⟨harranged, ?_⟩, ?_⟩, ?_⟩
    · rw [← rankExpr_eq]
      exact List.mem_append_right _ (List.mem_singleton_self _)
    · rw [hpart, hwindow]
      exact hclasses
    · rw [hpart, hfirst]
      exact hkept
    · rw [hcompare]
      exact hsorted

omit ha hapart in
/-- Ranks are computed of what the columns are computed of. -/
theorem resolves_inner (hresolves : (orderedTotals grouped dimensions metrics).Resolves) :
    (rankedTotals grouped dimensions metrics n).inner.Resolves := by
  obtain ⟨hjoins, hrestriction, hcolumns, hgroupBy, _⟩ := hresolves
  refine ⟨hjoins, hrestriction, fun column hcolumn => ?_, hgroupBy, ?_⟩
  · rcases List.mem_append.1 hcolumn with hcolumn | hrank
    · exact hcolumns column hcolumn
    · have hnamed : ∀ labelled ∈ dimensions ++ metrics,
          labelled.2.IsOver (orderedTotals grouped dimensions metrics).names := by
        intro labelled hlabelled
        refine hcolumns (.named labelled.2 labelled.1) ?_
        show _ ∈ grouped.columns
        rw [hs.columns]
        exact List.mem_map_of_mem hlabelled
      rw [List.mem_singleton.1 hrank]
      exact (Expr.hereditary_isOver _).rankExpr trivial hnamed
  · show ∀ term ∈ grouped.orderBy, _
    rw [hs.orderBy]
    exact fun term hterm => nomatch hterm

/-- What a limit may keep of the groups that are listed without one. -/
theorem lists_ranked_of_ordered (hgrouped : a.groupBy ≠ []) {groups : List (List Scope)}
    (hlists : (orderedTotals grouped dimensions metrics).Lists c engine db groups)
    (hlength : groups.length ≤ maxBound) (kept : List (List Scope)) :
    (rankedTotals grouped dimensions metrics n).Lists c engine db kept ↔
      (∃ arranged : List (List Scope), arranged.Perm groups ∧
        (∀ parent, Sorted (c.compareOn a.metricOrder (grouped.groupRow a engine))
          (arranged.filter ((a.parent ∘ grouped.groupRow a engine) · = parent))) ∧
        kept.Perm (firstOfEach (a.parent ∘ grouped.groupRow a engine) n arranged)) ∧
      Sorted (c.compareOn a.order (grouped.groupRow a engine)) kept := by
  obtain ⟨hdistinct, hresolves, hperm, _⟩ := (hs.lists_ordered_iff ha hapart groups).1 hlists
  have hbound {arranged : List (List Scope)} (harranged : arranged.Perm groups) :
      firstOfEach (a.parent ∘ grouped.groupRow a engine) (min n maxBound) arranged =
        firstOfEach (a.parent ∘ grouped.groupRow a engine) n arranged :=
    firstOfEach_min n (harranged.length_eq.trans_le hlength)
  rw [hs.lists_ranked_iff ha hapart hgrouped kept]
  constructor
  · rintro ⟨_, _, ⟨arranged, harranged, hclasses, hkept⟩, hordered⟩
    have harranged := harranged.trans hperm.symm
    exact ⟨⟨arranged, harranged, hclasses, hbound harranged ▸ hkept⟩, hordered⟩
  · rintro ⟨⟨arranged, harranged, hclasses, hkept⟩, hordered⟩
    exact ⟨hdistinct, hs.resolves_inner hresolves, ⟨arranged, harranged.trans hperm, hclasses,
      (hbound harranged).symm ▸ hkept⟩, hordered⟩

section Listed

variable (hlinear : c.IsLinear) {groups : List (List Scope)}
  (hlists : (orderedTotals grouped dimensions metrics).Lists c engine db groups)

include hgrouped hlists

/-- Each group is listed once. -/
theorem nodup_listed : (groups.map fun group =>
    a.groupBy.map fun path => grouped.groupRow a engine group (.group path)).Nodup := by
  obtain ⟨_, _, hperm, _⟩ := (hs.lists_ordered_iff ha hapart groups).1 hlists
  exact ((hperm.map _).nodup_iff).2
    (hs.nodup_groups ha hapart engine (grouped.found engine db) hgrouped)

/-- Groups with the same row are the same. -/
theorem eq_of_groupRow {group group' : List Scope} (hgroup : group ∈ groups)
    (hgroup' : group' ∈ groups)
    (hsame : grouped.groupRow a engine group = grouped.groupRow a engine group') : group = group' :=
  List.inj_on_of_nodup_map (hs.nodup_listed ha hapart hgrouped hlists) hgroup hgroup'
    (by rw [hsame])

include hlinear

/-- Rows that are alike belong to the same group. -/
theorem eq_of_compareOn_order {group group' : List Scope} (hgroup : group ∈ groups)
    (hgroup' : group' ∈ groups)
    (halike : c.compareOn a.order (grouped.groupRow a engine) group group' = .eq) :
    group = group' :=
  List.inj_on_of_nodup_map (hs.nodup_listed ha hapart hgrouped hlists) hgroup hgroup'
    (Aggregate.groups_eq_of_order hlinear hgrouped halike)

/-- The groups of a parent are listed in the order of their metrics. -/
theorem sorted_metrics (parent : List Datum) :
    Sorted (c.compareOn a.metricOrder (grouped.groupRow a engine))
      (groups.filter ((a.parent ∘ grouped.groupRow a engine) · = parent)) := by
  obtain ⟨_, _, _, hsorted⟩ := (hs.lists_ordered_iff ha hapart groups).1 hlists
  refine (hsorted.sublist List.filter_sublist).imp_of_mem fun {group group'} hgroup hgroup' => ?_
  refine Aggregate.isLE_metricOrder hlinear hgrouped ?_
  exact (of_decide_eq_true (List.mem_filter.1 hgroup).2).trans
    (of_decide_eq_true (List.mem_filter.1 hgroup').2).symm

/-- The groups that come first where all groups are listed may be kept. -/
theorem lists_ranked_first (hlength : groups.length ≤ maxBound) :
    (rankedTotals grouped dimensions metrics n).Lists c engine db
      (firstOfEach (a.parent ∘ grouped.groupRow a engine) n groups) := by
  obtain ⟨_, _, _, hsorted⟩ := (hs.lists_ordered_iff ha hapart groups).1 hlists
  refine (hs.lists_ranked_of_ordered ha hapart hgrouped hlists hlength _).2
    ⟨⟨groups, .refl _, hs.sorted_metrics ha hapart hgrouped hlinear hlists, .refl _⟩, ?_⟩
  exact hsorted.sublist (firstOfEach_sublist _ n groups)

/-- If the metrics decide which groups come first, no others are kept. -/
theorem eq_first_of_isDecided (hlength : groups.length ≤ maxBound)
    (hdecided : a.IsDecided c n (groups.map (grouped.groupRow a engine)))
    {kept : List (List Scope)}
    (hkept : (rankedTotals grouped dimensions metrics n).Lists c engine db kept) :
    kept = firstOfEach (a.parent ∘ grouped.groupRow a engine) n groups := by
  obtain ⟨⟨arranged, harranged, hclasses, hkept⟩, hordered⟩ :=
    (hs.lists_ranked_of_ordered ha hapart hgrouped hlists hlength kept).1 hkept
  obtain ⟨_, _, _, hsorted⟩ := (hs.lists_ordered_iff ha hapart groups).1 hlists
  have hcmp := hlinear.transCmp_compareOn a.order (grouped.groupRow a engine)
  have hwindow := hlinear.transCmp_compareOn a.metricOrder (grouped.groupRow a engine)
  have hlt := Aggregate.lt_of_isDecided hlinear hgrouped hsorted hdecided
  exact Sorted.eq_firstOfEach hsorted harranged hclasses hlt hkept hordered
    fun _ hgroup _ hgroup' =>
      hs.eq_of_compareOn_order ha hapart hgrouped hlinear hlists hgroup hgroup'

/-- Of two groups with the same metrics, the later one may be kept. -/
theorem exists_lists_ranked_mem (hlength : groups.length ≤ maxBound) {parent : List Datum}
    {group group' : List Scope}
    (hgroup : group ∈ (groups.filter ((a.parent ∘ grouped.groupRow a engine) · = parent)).take n)
    (hgroup' : group' ∈ (groups.filter ((a.parent ∘ grouped.groupRow a engine) · = parent)).drop n)
    (halike : c.compareOn a.metricOrder (grouped.groupRow a engine) group group' = .eq) :
    ∃ kept, (rankedTotals grouped dimensions metrics n).Lists c engine db kept ∧ group' ∈ kept := by
  have hcmp := hlinear.transCmp_compareOn a.order (grouped.groupRow a engine)
  have hwindow := hlinear.transCmp_compareOn a.metricOrder (grouped.groupRow a engine)
  obtain ⟨arranged, kept, harranged, hclasses, hkept, hordered, hmem⟩ :=
    exists_mem_firstOfEach (c.compareOn a.order (grouped.groupRow a engine))
      (hs.sorted_metrics ha hapart hgrouped hlinear hlists) hgroup hgroup' halike
  exact ⟨kept, (hs.lists_ranked_of_ordered ha hapart hgrouped hlists hlength kept).2
    ⟨⟨arranged, harranged, hclasses, hkept⟩, hordered⟩, hmem⟩

end Listed

/-- Of the groups that are listed without a limit, the first ones of each parent are listed with a
limit, whatever the database does, exactly if the metrics decide which these are. -/
theorem shows_ranked (hlinear : c.IsLinear) (hgrouped : a.groupBy ≠ []) {shown : List GroupRow}
    (hshown : (Statement.select (orderedTotals grouped dimensions metrics)).Shows c engine db a
      shown) (hlength : shown.length ≤ maxBound) :
    (∃ kept, (Statement.ranked (rankedTotals grouped dimensions metrics n)).Shows c engine db a
      kept) ∧
    ((∀ kept, (Statement.ranked (rankedTotals grouped dimensions metrics n)).Shows c engine db a
      kept → a.KeepsFirst n shown kept) ↔ a.IsDecided c n shown) := by
  obtain ⟨groups, hlists, rfl⟩ := hshown
  rw [List.length_map] at hlength
  have hrow : (rankedTotals grouped dimensions metrics n).groupRow engine a =
      grouped.groupRow a engine := funext fun group => hs.groupRow_ranked ha hapart group
  refine ⟨⟨_, _, hs.lists_ranked_first ha hapart hgrouped hlinear hlists hlength, rfl⟩,
    fun hfirst parent row hmem row' hmem' halike => ?_, fun hdecided => ?_⟩
  · rw [List.filter_map, ← List.map_take] at hmem
    rw [List.filter_map, ← List.map_drop] at hmem'
    obtain ⟨group, hgroup, rfl⟩ := List.mem_map.1 hmem
    obtain ⟨group', hgroup', rfl⟩ := List.mem_map.1 hmem'
    obtain ⟨kept, hkept, hlater⟩ := hs.exists_lists_ranked_mem ha hapart hgrouped hlinear hlists
      hlength hgroup hgroup' halike
    have hfirst := hfirst _ ⟨kept, hkept, rfl⟩
    rw [hrow] at hfirst
    -- The later group would be one of the first ones.
    have hclass := List.mem_filter.1 (List.mem_of_mem_drop hgroup')
    have hagain := Aggregate.mem_take_of_keepsFirst hfirst
      (fun _ hgroup _ hgroup' => hs.eq_of_groupRow ha hapart hgrouped hlists hgroup hgroup')
      hclass.1 hlater (of_decide_eq_true hclass.2)
    have hnodup := (hs.nodup_listed ha hapart hgrouped hlists).of_map.filter
      ((a.parent ∘ grouped.groupRow a engine) · = parent)
    exact List.disjoint_take_drop hnodup le_rfl hagain hgroup'
  · rintro kept ⟨listed, hlisted, rfl⟩
    rw [hrow, hs.eq_first_of_isDecided ha hapart hgrouped hlinear hlists hlength hdecided hlisted]
    exact a.keepsFirst_map _ n groups

end Select.IsGrouped
end Listing.Sql

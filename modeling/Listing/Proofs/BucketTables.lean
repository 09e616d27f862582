/-
# Tables in buckets

A table of totals, written as the answer of an index and read again, has the same rows: in the same
order, if rows that agree in their first groups stand together.

This needs a name that nothing else has in a bucket. Next to the key of a bucket stand the answers
to the aggregations inside of it, under labels that the schema chooses, and an attribute may be
called `key`. Grouped by it inside of another group, the answer takes the place of the key, or the
key that of the answer.
-/
import Listing.Proofs.BucketRows

namespace Listing.SearchIndex

/-! ### Members of a bucket -/

/-- In whatever order entries under different names are searched, the same one is found. -/
theorem lookup_reverse {α : Type} {entries : List (String × α)}
    (hnodup : (entries.map (·.1)).Nodup) (name : String) :
    entries.reverse.lookup name = entries.lookup name := by
  have hreverse : (entries.reverse.map (·.1)).Nodup := by
    rwa [List.map_reverse, List.nodup_reverse]
  ext value
  rw [← Params.mem_iff_lookup hreverse, ← Params.mem_iff_lookup hnodup, List.mem_reverse]

variable {value : GroupValue} {n : Nat} {entries : Row}

/-- The own members of a bucket. -/
def ownMembers (value : GroupValue) (n : Nat) : Row :=
  [("key", value.toJson), ("doc_count", .int n)]

/-- In a bucket, the answers inside come before its own members. -/
theorem get?_bucketOf (hnodup : (entries.map (·.1)).Nodup) (name : String) :
    (bucketOf value n entries).get? name =
      (entries.lookup name).or ((ownMembers value n).lookup name) := by
  rw [bucketOf, Json.ofEntries, Json.get?, Document.lookup_written, List.reverse_append, List.lookup_append,
    lookup_reverse hnodup, ownMembers, lookup_reverse]
  simp

theorem get?_bucketOf_of_mem (hnodup : (entries.map (·.1)).Nodup) {entry : String × Json}
    (hentry : entry ∈ entries) : (bucketOf value n entries).get? entry.1 = some entry.2 := by
  rw [get?_bucketOf hnodup, (Params.mem_iff_lookup hnodup).1 hentry, Option.some_or]

theorem get?_bucketOf_of_notMem (value : GroupValue) (n : Nat)
    (hnodup : (entries.map (·.1)).Nodup) {name : String} (hname : name ∉ entries.map (·.1)) :
    (bucketOf value n entries).get? name = (ownMembers value n).lookup name := by
  have hnone : entries.lookup name = none := by
    rw [List.lookup_eq_none_iff]
    intro entry hentry
    refine bne_iff_ne.2 fun heq => hname ?_
    exact heq ▸ List.mem_map_of_mem hentry
  rw [get?_bucketOf hnodup, hnone, Option.none_or]

/-- A bucket has the form that it should have, if no answer inside is called `key`. -/
theorem isBucket_bucketOf {inner : Aggregations} (hnames : entries.map (·.1) = inner.map (·.1))
    (hnodup : (entries.map (·.1)).Nodup) (hkey : "key" ∉ entries.map (·.1)) :
    IsBucket inner (bucketOf value n entries) where
  key := ⟨value, get?_bucketOf_of_notMem value n hnodup hkey⟩
  documents hfree := ⟨n, get?_bucketOf_of_notMem value n hnodup (hnames ▸ hfree)⟩
  members name hsome := by
    by_cases hname : name ∈ entries.map (·.1)
    · exact .inr (hnames ▸ hname)
    · rw [get?_bucketOf_of_notMem value n hnodup hname] at hsome
      obtain ⟨found, hfound⟩ := Option.isSome_iff_exists.1 hsome
      have hown : name ∈ (ownMembers value n).map (·.1) := List.mem_map_of_mem (mem_of_lookup hfound)
      refine .inl (List.Sublist.subset ?_ hown)
      exact (show ["key", "doc_count"].Sublist bucketMembers from by decide)

/-! ### Rows with the same group -/

section Rows

variable {p : Path} {paths : List Path} {rows : List TotalsRow}

/-- Where nothing is grouped, a table has one row. -/
theorem IsTable.exists_eq_singleton (htable : IsTable [] rows) : ∃ r, rows = [r] := by
  obtain ⟨hdistinct, hsome⟩ := htable
  cases rows with
  | nil => exact absurd rfl (hsome rfl)
  | cons r rows =>
      cases rows with
      | nil => exact ⟨r, rfl⟩
      | cons r' rows => simp [TotalsRow.groups] at hdistinct

/-- The rows with one value of the outermost group are a table of the others. -/
theorem IsTable.inside (htable : IsTable (p :: paths) rows)
    (hvalue : value ∈ (rows.map (·.group p)).eraseDups) :
    IsTable paths (rows.filter (·.group p = value)) := by
  constructor
  · have hsublist : (rows.filter (·.group p = value)).Sublist rows := List.filter_sublist
    have hinside := htable.distinct.sublist (hsublist.map _)
    have hmap : (rows.filter (·.group p = value)).map (·.groups (p :: paths)) =
        ((rows.filter (·.group p = value)).map (·.groups paths)).map (value :: ·) := by
      rw [List.map_map]
      refine List.map_congr_left fun r hr => ?_
      rw [← of_decide_eq_true (List.mem_filter.1 hr).2]
      rfl
    rw [hmap] at hinside
    exact hinside.of_map _
  · intro _ hnone
    obtain ⟨r, hr, hvalue⟩ := List.mem_map.1 (List.mem_eraseDups.1 hvalue)
    exact List.not_mem_nil (hnone ▸ List.mem_filter.2 ⟨hr, decide_eq_true hvalue⟩)

/-- The rows of a table in the order in which they are read: those with one value of the outermost
group after those with another. -/
def regrouped : List Path → List TotalsRow → List TotalsRow
  | [], rows => rows
  | p :: paths, rows => (rows.map (·.group p)).eraseDups.flatMap fun value =>
    regrouped paths (rows.filter (·.group p = value))

/-- Regrouping loses no row and adds none. -/
theorem regrouped_perm (paths : List Path) (rows : List TotalsRow) :
    (regrouped paths rows).Perm rows := by
  induction paths generalizing rows with
  | nil => exact .refl rows
  | cons p paths ih =>
      have hclasses := flatMap_classes_perm (nodup_eraseDups (rows.map (·.group p)))
        fun r hr => List.mem_eraseDups.2 (List.mem_map_of_mem hr)
      exact .trans (.flatMap_left _ fun value _ => ih _) hclasses

/-- The rows with one value of the outermost group are gathered by the others. -/
theorem AreGathered.inside (hgathered : AreGathered (p :: paths) rows) (value : GroupValue) :
    AreGathered paths (rows.filter (·.group p = value)) := by
  intro first between last hsublist n htake
  have hvalue : ∀ r ∈ [first, between, last], r.group p = value := fun r hr =>
    of_decide_eq_true (List.mem_filter.1 (hsublist.subset hr)).2
  have hnext := hgathered first between last (hsublist.trans List.filter_sublist) (n + 1)
  simp only [List.forall_mem_cons] at hvalue
  obtain ⟨hfirst, hbetween, hlast, -⟩ := hvalue
  simp only [TotalsRow.groups, List.map_cons, List.take_succ_cons, hfirst, hbetween, hlast,
    List.cons.injEq, true_and] at hnext
  exact hnext htake

/-- Gathered rows are read in the order in which they are. -/
theorem AreGathered.regrouped_eq (hgathered : AreGathered paths rows) :
    regrouped paths rows = rows := by
  induction paths generalizing rows with
  | nil => rfl
  | cons p paths ih =>
      rw [regrouped, List.flatMap_congr fun value _ => ih (hgathered.inside value)]
      refine flatMap_classes_eq fun first between last hsublist hsame => ?_
      simpa [TotalsRow.groups] using hgathered first between last hsublist 1
        (by simpa [TotalsRow.groups] using hsame)

end Rows

/-! ### The answers that a table is written as -/

variable {metrics : List Metric} {fields : List MetricField} {grouped : Bool} {node : Json}
  {limit : Option Nat} {r : TotalsRow}

/-- A node has some members, and it may have others. -/
def Holds (node : Json) (entries : Row) : Prop :=
  ∀ entry ∈ entries, node.get? entry.1 = some entry.2

theorem holds_bucketOf (value : GroupValue) (n : Nat) (hnodup : (entries.map (·.1)).Nodup) :
    Holds (bucketOf value n entries) entries :=
  fun _ hentry => get?_bucketOf_of_mem hnodup hentry

theorem map_fst_metricMembers (grouped : Bool) (metrics : List Metric) (r : TotalsRow) :
    (metricMembers grouped metrics r).map (·.1) = aggregatedLabels grouped metrics := by
  rw [metricMembers, aggregatedLabels, List.map_filterMap, ← List.filterMap_eq_map,
    List.filterMap_filter]
  refine List.filterMap_congr fun m _ => ?_
  unfold metricMember?
  cases m.path <;> cases grouped <;> rfl

/-- A node with the members of a row has what its metrics are answered by. -/
theorem hasAnswer_of_holds (hholds : Holds node (metricMembers grouped metrics r)) {m : Metric}
    (hm : m ∈ metrics) : HasAnswer grouped node m := by
  have hmember : ∀ entry ∈ metricMember? grouped r m, node.get? entry.1 = some entry.2 :=
    fun entry hentry => hholds entry (List.mem_filterMap.2 ⟨m, hm, hentry⟩)
  unfold metricMember? at hmember
  unfold HasAnswer
  cases hpath : m.path with
  | some p =>
      rw [hpath] at hmember
      exact ⟨_, hmember _ rfl, r.value m, rfl⟩
  | none =>
      rw [hpath] at hmember
      rintro rfl
      exact ⟨_, hmember _ rfl, rfl, r.documents, rfl⟩

/-- Metrics are answered by the values of the row. -/
theorem answer?_of_holds (hholds : Holds node (metricMembers grouped metrics r)) {m : Metric}
    (hm : m ∈ metrics)
    (hdocuments : grouped = true → node.get? "doc_count" = some (.int r.documents)) :
    m.answer? grouped node = some (r.cell m) := by
  have hmember : ∀ entry ∈ metricMember? grouped r m, node.get? entry.1 = some entry.2 :=
    fun entry hentry => hholds entry (List.mem_filterMap.2 ⟨m, hm, hentry⟩)
  unfold metricMember? at hmember
  unfold Metric.answer? TotalsRow.cell
  cases hpath : m.path with
  | some p =>
      rw [hpath] at hmember
      exact congrArg (Option.bind · _) (hmember _ rfl)
  | none =>
      rw [hpath] at hmember
      cases grouped with
      | true => exact hdocuments rfl
      | false => exact congrArg (Option.bind · _) (hmember _ rfl)

/-! ### Levels of buckets -/

section Levels

variable {paths : List Path} {rows : List TotalsRow} {dimensions : List (String × String)}

/-- The labels of what is inside of a level of buckets. -/
def innerLabels (metrics : List Metric) : List Path → List String
  | [] => aggregatedLabels true metrics
  | p :: _ => [p.label]

theorem nodup_innerLabels (hmetrics : (metrics.map Metric.label).Nodup) (paths : List Path) :
    (innerLabels metrics paths).Nodup := by
  cases paths with
  | nil => exact hmetrics.sublist (aggregatedLabels_sublist true metrics)
  | cons p paths => exact List.nodup_singleton p.label

theorem label_of_mem_aggregatedLabels {label : String}
    (hlabel : label ∈ aggregatedLabels grouped metrics) : label ∉ bucketMembers := by
  obtain ⟨m, _, rfl⟩ := List.mem_map.1 hlabel
  exact label_notMem_bucketMembers m

theorem key_notMem_innerLabels (metrics : List Metric) (hkey : "key" ∉ paths.map Path.label) :
    "key" ∉ innerLabels metrics paths := by
  cases paths with
  | nil => exact fun hmem => label_of_mem_aggregatedLabels hmem (by decide)
  | cons p paths =>
      rw [innerLabels, List.mem_singleton]
      exact fun heq => hkey (heq ▸ List.mem_cons_self)

theorem map_fst_answers (metrics : List Metric) (htable : IsTable paths rows) :
    (answers true metrics paths rows).map (·.1) = innerLabels metrics paths := by
  cases paths with
  | nil =>
      obtain ⟨r, rfl⟩ := htable.exists_eq_singleton
      rw [answers, List.flatMap_singleton, map_fst_metricMembers]
      rfl
  | cons p paths => rfl

theorem map_fst_innerAggregations (hfields : Compiles metrics fields)
    (hmetrics : (metrics.map Metric.label).Nodup)
    (hdimensions : dimensions.map (·.1) = paths.map Path.label) :
    (innerAggregations fields limit dimensions).map (·.1) = innerLabels metrics paths := by
  cases paths with
  | nil =>
      rw [List.map_nil, List.map_eq_nil_iff] at hdimensions
      rw [hdimensions, innerAggregations, metricAggregations_eq hfields hmetrics,
        map_fst_listedAggregations hfields]
      rfl
  | cons p paths =>
      obtain ⟨d, dimensions, rfl, hd, -⟩ := List.map_eq_cons_iff.1 hdimensions
      obtain ⟨size, order, heq⟩ := bucketLevels_cons fields limit d dimensions
      rw [innerAggregations, heq, List.map_singleton, hd]
      rfl

/-- The rows with one value of the outermost group are written as a bucket. -/
theorem isBucket_inside (hfields : Compiles metrics fields)
    (hmetrics : (metrics.map Metric.label).Nodup)
    (hdimensions : dimensions.map (·.1) = paths.map Path.label)
    (hkey : "key" ∉ paths.map Path.label) (htable : IsTable paths rows) :
    IsBucket (innerAggregations fields limit dimensions)
      (bucketOf value n (answers true metrics paths rows)) := by
  have hnames := map_fst_answers metrics htable
  refine isBucket_bucketOf ?_ ?_ ?_
  · rw [hnames, map_fst_innerAggregations hfields hmetrics hdimensions]
  · exact hnames ▸ nodup_innerLabels hmetrics paths
  · exact hnames ▸ key_notMem_innerLabels metrics hkey

/-- A table is written as an answer to the aggregations of its groups and metrics. The induction is
on the levels. -/
theorem areAnsweredBy_answers (hfields : Compiles metrics fields)
    (hmetrics : (metrics.map Metric.label).Nodup)
    (hdimensions : dimensions.map (·.1) = paths.map Path.label)
    (hkey : "key" ∉ (paths.map Path.label).tail) (htable : IsTable paths rows)
    (hholds : Holds node (answers true metrics paths rows)) :
    AreAnsweredBy (innerAggregations fields limit dimensions) node := by
  induction paths generalizing dimensions rows node with
  | nil =>
      rw [List.map_nil, List.map_eq_nil_iff] at hdimensions
      obtain ⟨r, rfl⟩ := htable.exists_eq_singleton
      rw [answers, List.flatMap_singleton] at hholds
      rw [hdimensions, innerAggregations, metricAggregations_eq hfields hmetrics,
        areAnsweredBy_listedAggregations hfields]
      exact fun m hm => hasAnswer_of_holds hholds hm
  | cons p paths ih =>
      obtain ⟨d, dimensions, rfl, hd, hrest⟩ := List.map_eq_cons_iff.1 hdimensions
      rw [List.map_cons, List.tail_cons] at hkey
      rw [innerAggregations, areAnsweredBy_bucketLevels_cons, hd]
      refine ⟨_, congrArg (Option.bind · _) (hholds _ List.mem_cons_self), fun bucket hbucket => ?_⟩
      obtain ⟨value, hvalue, rfl⟩ := List.mem_map.1 hbucket
      have hinside := htable.inside hvalue
      refine ⟨isBucket_inside hfields hmetrics hrest hkey hinside, ?_⟩
      refine ih hrest (fun hmem => hkey (List.mem_of_mem_tail hmem)) hinside (holds_bucketOf _ _ ?_)
      rw [map_fst_answers metrics hinside]
      exact nodup_innerLabels hmetrics paths

/-- In an innermost bucket, the metrics are those of its row. -/
theorem metricValue_bucketOf (hfields : Compiles metrics fields)
    (hmetrics : (metrics.map Metric.label).Nodup) {m : Metric} (hm : m ∈ metrics) :
    metricValue (bucketOf value r.documents (metricMembers true metrics r)) m.label = r.cell m := by
  have hnames := map_fst_metricMembers true metrics r
  have hnodup : ((metricMembers true metrics r).map (·.1)).Nodup :=
    hnames ▸ nodup_innerLabels hmetrics []
  have hown {name : String} (hname : name ∈ bucketMembers) :
      name ∉ (metricMembers true metrics r).map (·.1) :=
    fun hmem => label_of_mem_aggregatedLabels (hnames ▸ hmem) hname
  have hbucket : IsBucket (metricAggregations true fields)
      (bucketOf value r.documents (metricMembers true metrics r)) := by
    refine isBucket_bucketOf ?_ hnodup (hown (by decide))
    rw [hnames, metricAggregations_eq hfields hmetrics, map_fst_listedAggregations hfields]
  have hholds := holds_bucketOf value r.documents hnodup
  have hread := answer?_eq_metricValue hfields hmetrics hm (hasAnswer_of_holds hholds hm)
    fun _ => hbucket
  have hfree : "doc_count" ∉ (metricMembers true metrics r).map (·.1) := hown (by decide)
  have hdocuments := get?_bucketOf_of_notMem value r.documents hnodup hfree
  rw [answer?_of_holds hholds hm fun _ => hdocuments] at hread
  exact (Option.some_inj.1 hread).symm

/-- From the answer that a table is written as, its rows are read. The induction is on the levels. -/
theorem rowsFrom_answers (hfields : Compiles metrics fields) {written : Row}
    (hnodup : (written.map (·.1) ++ paths.map Path.label ++ metrics.map Metric.label).Nodup)
    (hkey : "key" ∉ (paths.map Path.label).tail) (htable : IsTable paths rows)
    (hholds : Holds node (answers grouped metrics paths rows))
    (hgrouped : paths ≠ [] → grouped = true)
    (hvalues : paths = [] → ∀ r ∈ rows, ∀ m ∈ metrics, metricValue node m.label = r.cell m) :
    rowsFrom (metrics.map Metric.label) written (paths.map Path.label) node =
      (regrouped paths rows).map fun r => written ++ r.columns paths metrics := by
  induction paths generalizing written rows node with
  | nil =>
      obtain ⟨r, rfl⟩ := htable.exists_eq_singleton
      have hwritten : (written.map (·.1) ++ metrics.map Metric.label).Nodup := by simpa using hnodup
      rw [List.map_nil, rowsFrom, foldl_insertEntry_values (metricValue node) hwritten, regrouped,
        List.map_singleton, TotalsRow.columns, List.map_nil, List.nil_append, List.map_map]
      refine congrArg (fun columns => [written ++ columns]) (List.map_congr_left fun m hm => ?_)
      exact congrArg _ (hvalues rfl r List.mem_cons_self m hm)
  | cons p paths ih =>
      obtain rfl : grouped = true := hgrouped (List.cons_ne_nil p paths)
      rw [List.map_cons, List.tail_cons] at hkey
      have hfresh : p.label ∉ written.map (·.1) := by
        rw [List.map_cons, List.append_assoc, List.nodup_append] at hnodup
        exact fun hmem => hnodup.2.2 _ hmem _ List.mem_cons_self rfl
      have hmetrics : (metrics.map Metric.label).Nodup := (List.nodup_append.1 hnodup).2.1
      have hbuckets : bucketsOf node p.label = (rows.map (·.group p)).eraseDups.map fun value =>
          let inside := rows.filter (·.group p = value)
          bucketOf value (inside.map (·.documents)).sum (answers true metrics paths inside) := by
        rw [bucketsOf, hholds _ List.mem_cons_self]
        rfl
      rw [List.map_cons, rowsFrom, hbuckets, List.flatMap_map, regrouped, List.map_flatMap]
      refine List.flatMap_congr fun value hvalue => ?_
      have hinside := htable.inside hvalue
      have hnames := map_fst_answers metrics hinside
      have hinner := hnames ▸ nodup_innerLabels hmetrics paths
      have hread := get?_bucketOf_of_notMem value
        ((rows.filter (·.group p = value)).map (·.documents)).sum hinner
        (hnames ▸ key_notMem_innerLabels metrics hkey)
      dsimp only
      rw [hread, insertEntry_of_notMem hfresh,
        ih (by simpa using hnodup) (fun hmem => hkey (List.mem_of_mem_tail hmem)) hinside
          (holds_bucketOf _ _ hinner) fun _ => rfl]
      · refine List.map_congr_left fun r hr => ?_
        have hgroup := of_decide_eq_true (List.mem_filter.1 ((regrouped_perm _ _).mem_iff.1 hr)).2
        rw [List.append_assoc, TotalsRow.columns, TotalsRow.columns, List.map_cons, hgroup]
        rfl
      · rintro rfl r hr m hm
        obtain ⟨r', hr'⟩ := hinside.exists_eq_singleton
        rw [hr', List.mem_singleton] at hr
        rw [hr', hr, answers, List.flatMap_singleton, List.map_singleton, List.sum_singleton]
        exact metricValue_bucketOf hfields hmetrics hm

end Levels

/-! ### Tables -/

/-- Where an inner group is called `key`, no answer has the form that it should have and an innermost
bucket: in the bucket around it, the key and the answer have one name. -/
theorem bucketPaths_eq_nil {fields : List MetricField} {limit : Option Nat}
    {dimensions : List (String × String)} {answer : Json}
    (hkey : "key" ∈ (dimensions.map (·.1)).tail)
    (hanswered : AreAnsweredBy (bucketLevels fields limit dimensions) answer) :
    bucketPaths (dimensions.map (·.1)) answer = [] := by
  induction dimensions generalizing answer with
  | nil => cases hkey
  | cons d dimensions ih =>
      obtain ⟨buckets, hat, hall⟩ := areAnsweredBy_bucketLevels_cons.1 hanswered
      rw [List.map_cons, List.tail_cons] at hkey
      rw [List.map_cons, bucketPaths, hat]
      refine List.flatMap_eq_nil_iff.2 fun bucket hbucket => ?_
      obtain ⟨hform, hinside⟩ := hall bucket hbucket
      cases dimensions with
      | nil => cases hkey
      | cons d' dimensions =>
          rcases List.mem_cons.1 hkey with heq | hlater
          · -- The key of the bucket is a single value, so it is no list of buckets.
            obtain ⟨_, hat, -⟩ := areAnsweredBy_bucketLevels_cons.1 hinside
            obtain ⟨value, hvalue⟩ := hform.key
            rw [show d'.1 = "key" from heq.symm, Json.at?, hvalue] at hat
            cases value <;> cases hat
          · rw [ih hlater hinside, List.map_nil]

theorem holds_encode {a : Aggregate} (hmetrics : (a.metrics.map Metric.label).Nodup)
    {rows : List TotalsRow} (htable : IsTable a.groupBy rows) :
    Holds (encode a rows) (answers (!a.groupBy.isEmpty) a.metrics a.groupBy rows) := by
  have hnames : ((answers (!a.groupBy.isEmpty) a.metrics a.groupBy rows).map (·.1)).Nodup := by
    obtain ⟨metrics, groupBy, limit⟩ := a
    cases groupBy with
    | nil =>
        obtain ⟨r, rfl⟩ := htable.exists_eq_singleton
        rw [answers, List.flatMap_singleton, map_fst_metricMembers]
        exact hmetrics.sublist (aggregatedLabels_sublist _ metrics)
    | cons p paths => exact List.nodup_singleton p.label
  exact fun entry hentry => (Params.mem_iff_lookup hnames).1 hentry

/-- A table is written as an answer of the form that a search asks for. -/
theorem areAnsweredBy_encode {a : Aggregate} {fields : List MetricField} {limit : Option Nat}
    {dimensions : List (String × String)} (hfields : Compiles a.metrics fields)
    (hmetrics : (a.metrics.map Metric.label).Nodup)
    (hdimensions : dimensions.map (·.1) = a.groupBy.map Path.label)
    (hkey : "key" ∉ (a.groupBy.map Path.label).tail) {rows : List TotalsRow}
    (htable : IsTable a.groupBy rows) :
    AreAnsweredBy (bucketLevels fields limit dimensions) (encode a rows) := by
  have hholds := holds_encode hmetrics htable
  cases dimensions with
  | nil =>
      have hnone : a.groupBy = [] := List.map_eq_nil_iff.1 hdimensions.symm
      rw [hnone] at hholds htable
      obtain ⟨r, rfl⟩ := htable.exists_eq_singleton
      rw [answers, List.flatMap_singleton] at hholds
      rw [bucketLevels, metricAggregations_eq hfields hmetrics,
        areAnsweredBy_listedAggregations hfields]
      exact fun m hm => hasAnswer_of_holds hholds hm
  | cons d dimensions =>
      have hgrouped : a.groupBy ≠ [] := by
        intro hnone
        rw [hnone] at hdimensions
        cases hdimensions
      rw [List.isEmpty_eq_false_iff.2 hgrouped] at hholds
      exact areAnsweredBy_answers hfields hmetrics hdimensions hkey htable hholds

/-- From the answer that a table is written as, its rows are read, class by class. -/
theorem rowsFrom_encode {a : Aggregate} {fields : List MetricField}
    (hfields : Compiles a.metrics fields) (hnodup : a.columnLabels.Nodup)
    (hkey : "key" ∉ (a.groupBy.map Path.label).tail) {rows : List TotalsRow}
    (htable : IsTable a.groupBy rows) :
    rowsFrom (a.metrics.map Metric.label) [] (a.groupBy.map Path.label) (encode a rows) =
      (regrouped a.groupBy rows).map (·.columns a.groupBy a.metrics) := by
  have hmetrics : (a.metrics.map Metric.label).Nodup := (List.nodup_append.1 hnodup).2.1
  have hholds := holds_encode hmetrics htable
  refine rowsFrom_answers hfields hnodup hkey htable hholds (fun hgrouped => by simpa) ?_
  intro hnone r hr m hm
  rw [hnone] at hholds htable
  obtain ⟨r', rfl⟩ := htable.exists_eq_singleton
  rw [answers, List.flatMap_singleton] at hholds
  rw [List.mem_singleton.1 hr]
  have hread := answer?_eq_metricValue hfields hmetrics hm (hasAnswer_of_holds hholds hm) nofun
  rw [answer?_of_holds hholds hm nofun] at hread
  exact (Option.some_inj.1 hread).symm

/-- Every answer of the form that a search asks for has a row for each of its innermost buckets.
Tables are given back, exactly if no group but the outermost is called `key`. -/
theorem totalsRows_of_answers_and_tables {t : Target} {request : Request} {q : Query}
    (hcompile : t.compile request = .ok q) (hnodup : (q.dimensions ++ q.metrics).Nodup) :
    (∀ answer, AreAnsweredBy q.aggregations answer →
      List.Forall₂ (IsRowOf request.aggregate answer) (bucketPaths q.dimensions answer)
        (q.totalsRows answer)) ∧
    ((∀ rows, IsTable request.aggregate.groupBy rows → q.GivesBack request.aggregate rows) ↔
      "key" ∉ q.dimensions.tail) := by
  refine ⟨fun answer hanswered => Target.areRowsOf_totalsRows hcompile hnodup hanswered, ?_⟩
  obtain ⟨dimensions, fields, haggregations, hdimensions, hlevels, hfields, hmetrics⟩ :=
    Target.aggregations_of_compile hcompile
  constructor
  · intro htables hkey
    let r : TotalsRow := ⟨fun _ => .null, 1, fun _ => .null⟩
    obtain ⟨hanswered, hperm, -⟩ :=
      htables [r] ⟨List.nodup_singleton _, fun _ => List.cons_ne_nil r []⟩
    rw [haggregations] at hanswered
    rw [hlevels, ← hdimensions] at hkey
    rw [Query.totalsRows, rowsFrom_eq hnodup, hlevels, ← hdimensions,
      bucketPaths_eq_nil hkey hanswered] at hperm
    cases hperm.length_eq
  · intro hkey rows htable
    rw [hlevels] at hkey
    rw [hlevels, hmetrics] at hnodup
    have hread : q.totalsRows (encode request.aggregate rows) =
        (regrouped request.aggregate.groupBy rows).map
          (·.columns request.aggregate.groupBy request.aggregate.metrics) := by
      rw [Query.totalsRows, hlevels, hmetrics]
      exact rowsFrom_encode hfields hnodup hkey htable
    refine ⟨?_, ?_, fun hgathered => ?_⟩
    · rw [haggregations]
      exact areAnsweredBy_encode hfields (List.nodup_append.1 hnodup).2.1 hdimensions hkey htable
    · rw [hread]
      exact (regrouped_perm _ rows).map _
    · rw [hread, hgathered.regrouped_eq]

end SearchIndex

namespace Catalogue

open SearchIndex

/-- A product by name and price, with the sum of the prices. -/
def priced (name : String) (price total : Int) (documents : Nat) : TotalsRow where
  group path := if path = ⟨[], "name"⟩ then .text name else .int price
  documents
  value _ := .int total

/-- Chairs of two prices, and between them a lamp. -/
def prices : List TotalsRow := [priced "chair" 20 40 2, priced "lamp" 30 30 1, priced "chair" 25 25 1]

/-- Groups by name and by price with two metrics are given back. As the rows of chairs do not stand
together, their order is another one. -/
theorem totalsRows_of_answers_and_tables_dearest :
    ∃ q, index.compile dearest = .ok q ∧ (q.dimensions ++ q.metrics).Nodup ∧
      "key" ∉ q.dimensions.tail ∧ q.GivesBack dearest.aggregate prices ∧
      q.totalsRows (encode dearest.aggregate prices) = [
        [("name", .string "chair"), ("price", .int 20), ("sum_price", .int 40), ("count", .int 2)],
        [("name", .string "chair"), ("price", .int 25), ("sum_price", .int 25), ("count", .int 1)],
        [("name", .string "lamp"), ("price", .int 30), ("sum_price", .int 30), ("count", .int 1)]] ∧
      List.Forall₂ (IsRowOf dearest.aggregate (encode dearest.aggregate prices))
        (bucketPaths q.dimensions (encode dearest.aggregate prices))
        (q.totalsRows (encode dearest.aggregate prices)) := by
  have hcompile : index.compile dearest = .ok _ := rfl
  have hnodup : ["name", "price", "sum_price", "count"].Nodup := by decide
  have hkey : "key" ∉ ["price"] := by decide
  obtain ⟨hrows, htables⟩ := totalsRows_of_answers_and_tables hcompile hnodup
  have hgiven := htables.2 hkey prices ⟨by decide, nofun⟩
  exact ⟨_, hcompile, hnodup, hkey, hgiven, rfl, hrows _ hgiven.answered⟩

end Catalogue

namespace Hooks

open SearchIndex

/-- Hooks have a name, and keys hang on them. -/
def hook : Resource where
  name := "hook"
  storage := "hooks"
  attributes := [{ name := "name", kind := .string }, { name := "key", kind := .string }]

def index : Target where
  registry := { entries := [⟨hook, .searchIndex⟩] }
  resource := hook

def byKey : Request where
  aggregate := { metrics := [⟨.count, none⟩], groupBy := [⟨[], "name"⟩, ⟨[], "key"⟩] }

/-- One hook with one key. -/
def single : TotalsRow where
  group path := if path = ⟨[], "name"⟩ then .text "left" else .text "cellar"
  documents := 1
  value _ := .null

/-- Around a level that is called `key`, no bucket has a text for its key. -/
theorem name_ne_text {answer : Json} {row : Row}
    (hrow : row ∈ rowsFrom ["count"] [] ["name", "key"] answer) (name : String) :
    row.lookup "name" ≠ some (.string name) := by
  obtain ⟨outer, _, hrow⟩ := List.mem_flatMap.1 hrow
  obtain ⟨inner, hinner, hrow⟩ := List.mem_flatMap.1 hrow
  obtain rfl := List.mem_singleton.1 hrow
  intro hname
  have hkey : (outer.get? "key").getD .null = .string name := Option.some_inj.1 hname
  cases hget : outer.get? "key" with
  | none =>
      rw [hget] at hkey
      cases hkey
  | some value =>
      rw [hget, Option.getD_some] at hkey
      rw [bucketsOf, hget, hkey] at hinner
      cases hinner

/-- Grouped by name and then by key, the single hook has a row that no answer can give. -/
theorem totalsRows_loses_key :
    hook.check = .ok () ∧ Request.ofParams ⟨[("group_by", "name,key")]⟩ hook {} = .ok byKey ∧
    byKey.validate index.registry hook = .ok () ∧
    ∃ q, index.compile byKey = .ok q ∧ (q.dimensions ++ q.metrics).Nodup ∧
      IsTable byKey.aggregate.groupBy [single] ∧ AreGathered byKey.aggregate.groupBy [single] ∧
      single.columns byKey.aggregate.groupBy byKey.aggregate.metrics =
        [("name", .string "left"), ("key", .string "cellar"), ("count", .int 1)] ∧
      ∀ answer, q.totalsRows answer ≠
        [single].map (·.columns byKey.aggregate.groupBy byKey.aggregate.metrics) := by
  refine ⟨rfl, rfl, rfl, _, rfl, by decide, ⟨by decide, nofun⟩, ?_, rfl, fun answer hrows => ?_⟩
  · intro first between last hsublist
    have hlength : 3 ≤ 1 := hsublist.length_le
    omega
  · have hrow := List.mem_of_mem_head? (Option.mem_def.2 (congrArg List.head? hrows))
    exact name_ne_text hrow "left" rfl

end Hooks
end Listing

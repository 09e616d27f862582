/-
# The rows of buckets

Aggregations are compiled from the inside out, the metrics first and each level of buckets around
what is there already; their answers are read from the outside in. Both meet: a row is read for each
innermost bucket, with the keys of the buckets around it, and a metric is found where the search
asked for it.
-/
import Listing.Proofs.BucketLevels
import Listing.Proofs.Semantics.BucketAnswers

namespace Listing.SearchIndex

/-! ### One row for each path -/

/-- The key of a bucket as it is read. -/
def keyOf (bucket : Json) : Json := (bucket.get? "key").getD .null

theorem bucketPaths_cons (label : String) (labels : List String) (answer : Json) :
    bucketPaths (label :: labels) answer = (bucketsOf answer label).flatMap fun bucket =>
      (bucketPaths labels bucket).map (bucket :: ·) := by
  have hat : answer.at? [label, "buckets"] = (answer.get? label).bind (·.get? "buckets") := by
    simp only [Json.at?]
    cases answer.get? label <;> simp
  rw [bucketPaths, hat, bucketsOf]
  cases (answer.get? label).bind (·.get? "buckets") with
  | none => rfl
  | some value => cases value <;> rfl

/-- A row is read for each innermost bucket. -/
theorem rowsFrom_eq {metrics : List String} {written : Row} {labels : List String} {answer : Json}
    (hnodup : (written.map (·.1) ++ labels ++ metrics).Nodup) :
    rowsFrom metrics written labels answer = (bucketPaths labels answer).map fun path =>
      written ++ labels.zip (path.map keyOf) ++
        metrics.map fun label => (label, metricValue (path.getLastD answer) label) := by
  induction labels generalizing written answer with
  | nil =>
      rw [List.append_nil] at hnodup
      rw [rowsFrom, foldl_insertEntry_values (metricValue answer) hnodup]
      simp [bucketPaths]
  | cons label labels ih =>
      have hfresh : label ∉ written.map (·.1) := by
        rw [List.append_assoc, List.nodup_append] at hnodup
        exact fun hmem => hnodup.2.2 _ hmem _ List.mem_cons_self rfl
      rw [rowsFrom, bucketPaths_cons, List.map_flatMap]
      refine List.flatMap_congr fun bucket _ => ?_
      rw [insertEntry_of_notMem hfresh, ih (by simpa using hnodup), List.map_map]
      refine List.map_congr_left fun path _ => ?_
      simp only [Function.comp_apply, List.getLastD_cons]
      simp [keyOf]

/-! ### Metrics of a node -/

/-- The fields that the metrics of a request are computed of. -/
def Compiles (metrics : List Metric) (fields : List MetricField) : Prop :=
  List.Forall₂ (fun (m : Metric) (f : MetricField) =>
    f.label = m.label ∧ f.field.isSome = m.path.isSome) metrics fields

/-- The labels of the metrics that have an aggregation of their own. -/
def aggregatedLabels (grouped : Bool) (metrics : List Metric) : List String :=
  (metrics.filter fun m => m.path.isSome || !grouped).map Metric.label

/-- A node has what the aggregation of a metric is answered by. -/
def HasAnswer (grouped : Bool) (node : Json) (m : Metric) : Prop :=
  match m.path with
  | some _ => ∃ own, node.get? m.label = some own ∧ ∃ value, own.get? "value" = some value
  | none => grouped = false → ∃ own, node.get? m.label = some own ∧ own.get? "value" = none ∧
    ∃ n : Nat, own.get? "doc_count" = some (.int n)

variable {metrics : List Metric} {fields : List MetricField} {grouped : Bool} {node : Json}
  {limit : Option Nat}

theorem Compiles.map_label (hfields : Compiles metrics fields) :
    fields.map (·.label) = metrics.map Metric.label := by
  rw [← List.forall₂_eq_eq_eq, List.forall₂_map_left_iff, List.forall₂_map_right_iff]
  exact hfields.flip.imp fun _ _ h => h.1

theorem aggregatedLabels_sublist (grouped : Bool) (metrics : List Metric) :
    (aggregatedLabels grouped metrics).Sublist (metrics.map Metric.label) :=
  List.filter_sublist.map _

/-- What the metrics of a request are compiled to, where no label is used twice. -/
def listedAggregations (grouped : Bool) (fields : List MetricField) : Aggregations :=
  fields.filterMap fun f => (f.aggregation? grouped).map (f.label, ·)

theorem listedAggregations_cons (f : MetricField) :
    listedAggregations grouped (f :: fields) =
      ((f.aggregation? grouped).map (f.label, ·)).toList ++ listedAggregations grouped fields := by
  rw [listedAggregations, List.filterMap_cons]
  cases f.aggregation? grouped <;> rfl

theorem map_fst_listedAggregations (hfields : Compiles metrics fields) :
    (listedAggregations grouped fields).map (·.1) = aggregatedLabels grouped metrics := by
  induction hfields with
  | nil => rfl
  | @cons m f metrics fields hfirst _ ih =>
      have hrest : aggregatedLabels grouped (m :: metrics) =
          (if m.path.isSome || !grouped then [m.label] else []) ++
            aggregatedLabels grouped metrics := by
        rw [aggregatedLabels, List.filter_cons]
        split <;> rfl
      rw [hrest, listedAggregations_cons, List.map_append, ih, ← hfirst.1, ← hfirst.2]
      congr 1
      unfold MetricField.aggregation?
      cases f.field <;> cases grouped <;> rfl

/-- Metrics with labels of their own have aggregations one after the other. -/
theorem metricAggregations_eq (hfields : Compiles metrics fields)
    (hnodup : (metrics.map Metric.label).Nodup) :
    metricAggregations grouped fields = listedAggregations grouped fields := by
  have hfold : metricAggregations grouped fields = (listedAggregations grouped fields).foldl
      (fun acc entry => insertEntry entry.1 entry.2 acc) [] := by
    rw [listedAggregations, List.foldl_filterMap, metricAggregations]
    congr 1
    funext acc f
    cases f.aggregation? grouped <;> rfl
  rw [hfold, foldl_insertEntry_eq_append, List.nil_append]
  rw [List.nil_append, map_fst_listedAggregations hfields]
  exact hnodup.sublist (aggregatedLabels_sublist grouped metrics)

theorem areAnsweredBy_listedAggregations (hfields : Compiles metrics fields) :
    AreAnsweredBy (listedAggregations grouped fields) node ↔
      ∀ m ∈ metrics, HasAnswer grouped node m := by
  induction hfields with
  | nil => simp [listedAggregations, AreAnsweredBy]
  | @cons m f metrics fields hfirst _ ih =>
      obtain ⟨hlabel, hpath⟩ := hfirst
      rw [List.forall_mem_cons, ← ih, listedAggregations_cons, HasAnswer, ← hlabel]
      unfold MetricField.aggregation?
      cases hfield : f.field with
      | none =>
          rw [hfield, Option.isSome_none, eq_comm, Option.isSome_eq_false_iff,
            Option.isNone_iff_eq_none] at hpath
          cases grouped <;> simp [hpath, AreAnsweredBy, Aggregation.IsAnsweredBy]
      | some field =>
          rw [hfield, Option.isSome_some, eq_comm, Option.isSome_iff_exists] at hpath
          obtain ⟨p, hpath⟩ := hpath
          simp [hpath, AreAnsweredBy, Aggregation.IsAnsweredBy]

/-- No metric is labelled like a member of buckets. -/
theorem label_notMem_bucketMembers (m : Metric) : m.label ∉ bucketMembers := by
  intro hmem
  have hname := m.takeWhile_label
  have hother : ∀ f : MetricFunction, ∀ name ∈ bucketMembers,
      name.toList.takeWhile (· ≠ '_') ≠ f.name.toList := by
    intro f
    cases f <;> decide
  exact hother m.function _ hmem hname

/-- Where nothing else has their names, metrics are read from where they are answered. -/
theorem answer?_eq_metricValue (hfields : Compiles metrics fields)
    (hnodup : (metrics.map Metric.label).Nodup) {m : Metric} (hm : m ∈ metrics)
    (hanswer : HasAnswer grouped node m)
    (hbucket : grouped = true → IsBucket (metricAggregations true fields) node) :
    m.answer? grouped node = some (metricValue node m.label) := by
  have hlabels : (metricAggregations true fields).map (·.1) = aggregatedLabels true metrics := by
    rw [metricAggregations_eq hfields hnodup, map_fst_listedAggregations hfields]
  unfold HasAnswer at hanswer
  unfold Metric.answer? metricValue
  cases hpath : m.path with
  | some p =>
      rw [hpath] at hanswer
      obtain ⟨own, hown, value, hvalue⟩ := hanswer
      simp [Json.at?, hown, hvalue]
  | none =>
      rw [hpath] at hanswer
      cases grouped with
      | false =>
          obtain ⟨own, hown, hvalue, n, hn⟩ := hanswer rfl
          simp [Json.at?, hown, hvalue, hn]
      | true =>
          have hown : m.label ∉ aggregatedLabels true metrics := by
            intro hmem
            obtain ⟨m', hm', hlabel⟩ := List.mem_map.1 hmem
            obtain ⟨hm', hpath'⟩ := List.mem_filter.1 hm'
            rw [List.inj_on_of_nodup_map hnodup hm' hm hlabel, hpath] at hpath'
            cases hpath'
          have hnone : node.get? m.label = none := by
            rw [← Option.not_isSome_iff_eq_none]
            intro hsome
            rcases (hbucket rfl).members _ hsome with hmember | hinner
            · exact label_notMem_bucketMembers m hmember
            · exact hown (hlabels ▸ hinner)
          obtain ⟨n, hn⟩ := (hbucket rfl).documents fun hmem => by
            rw [hlabels] at hmem
            obtain ⟨m', _, hlabel⟩ := List.mem_map.1 hmem
            exact label_notMem_bucketMembers m' (hlabel ▸ by decide)
          simp [hnone, hn]

/-! ### Levels -/

/-- What is inside of a level of buckets: the next level, or the metrics. -/
def innerAggregations (fields : List MetricField) (limit : Option Nat) :
    List (String × String) → Aggregations
  | [] => metricAggregations true fields
  | d :: dimensions => bucketLevels fields limit (d :: dimensions)

theorem bucketLevels_cons (fields : List MetricField) (limit : Option Nat) (d : String × String)
    (dimensions : List (String × String)) :
    ∃ size order, bucketLevels fields limit (d :: dimensions) =
      [(d.1, .buckets d.2 size order (innerAggregations fields limit dimensions))] := by
  cases dimensions with
  | nil => exact ⟨_, _, rfl⟩
  | cons d' dimensions => exact ⟨_, _, rfl⟩

/-- A level is answered by a list of buckets. -/
theorem areAnsweredBy_bucketLevels_cons {d : String × String}
    {dimensions : List (String × String)} :
    AreAnsweredBy (bucketLevels fields limit (d :: dimensions)) node ↔
      ∃ buckets, node.at? [d.1, "buckets"] = some (.array buckets) ∧ ∀ bucket ∈ buckets,
        IsBucket (innerAggregations fields limit dimensions) bucket ∧
          AreAnsweredBy (innerAggregations fields limit dimensions) bucket := by
  obtain ⟨size, order, heq⟩ := bucketLevels_cons fields limit d dimensions
  simp only [heq, AreAnsweredBy, Aggregation.IsAnsweredBy, and_true, Json.at?]
  constructor
  · rintro ⟨own, hown, buckets, hbuckets, hall⟩
    exact ⟨buckets, by rw [hown, Option.bind_some, hbuckets]; rfl, hall⟩
  · rintro ⟨buckets, hat, hall⟩
    obtain ⟨own, hown, hat⟩ := Option.bind_eq_some_iff.1 hat
    obtain ⟨value, hbuckets, hvalue⟩ := Option.bind_eq_some_iff.1 hat
    cases hvalue
    exact ⟨own, hown, buckets, hbuckets, hall⟩

/-- On the way to an innermost bucket, every bucket has a key, and at its end are the metrics. -/
theorem node_of_path {dimensions : List (String × String)} {bucket : Json}
    (hbucket : IsBucket (innerAggregations fields limit dimensions) bucket)
    (hanswered : AreAnsweredBy (innerAggregations fields limit dimensions) bucket)
    {path : List Json} (hpath : path ∈ bucketPaths (dimensions.map (·.1)) bucket) :
    path.length = dimensions.length ∧ (∀ b ∈ path, ∃ key, b.get? "key" = some key) ∧
      IsBucket (metricAggregations true fields) (path.getLastD bucket) ∧
      AreAnsweredBy (metricAggregations true fields) (path.getLastD bucket) := by
  induction dimensions generalizing bucket path with
  | nil =>
      rw [List.map_nil, bucketPaths, List.mem_singleton] at hpath
      rw [hpath]
      exact ⟨rfl, nofun, hbucket, hanswered⟩
  | cons d dimensions ih =>
      obtain ⟨buckets, hat, hall⟩ := areAnsweredBy_bucketLevels_cons.1 hanswered
      rw [List.map_cons, bucketPaths, hat] at hpath
      obtain ⟨inner, hinner, hpath⟩ := List.mem_flatMap.1 hpath
      obtain ⟨rest, hrest, rfl⟩ := List.mem_map.1 hpath
      obtain ⟨hinside, hanswered⟩ := hall inner hinner
      obtain ⟨hlength, hkeys, hend⟩ := ih hinside hanswered hrest
      obtain ⟨key, hkey⟩ := hinside.key
      rw [List.getLastD_cons]
      exact ⟨congrArg _ hlength, List.forall_mem_cons.2 ⟨⟨_, hkey⟩, hkeys⟩, hend⟩

/-- On every path, buckets have keys and metrics are read from where they are answered. -/
theorem keys_and_metrics_of_path (hfields : Compiles metrics fields)
    (hnodup : (metrics.map Metric.label).Nodup) {dimensions : List (String × String)}
    {answer : Json} (hanswered : AreAnsweredBy (bucketLevels fields limit dimensions) answer)
    {path : List Json} (hpath : path ∈ bucketPaths (dimensions.map (·.1)) answer) :
    path.length = dimensions.length ∧ (∀ b ∈ path, ∃ key, b.get? "key" = some key) ∧
      ∀ m ∈ metrics, m.answer? (!dimensions.isEmpty) (path.getLastD answer) =
        some (metricValue (path.getLastD answer) m.label) := by
  cases dimensions with
  | nil =>
      rw [List.map_nil, bucketPaths, List.mem_singleton] at hpath
      rw [bucketLevels, metricAggregations_eq hfields hnodup,
        areAnsweredBy_listedAggregations hfields] at hanswered
      rw [hpath]
      refine ⟨rfl, List.forall_mem_nil _, fun m hm => ?_⟩
      exact answer?_eq_metricValue hfields hnodup hm (hanswered m hm) (absurd · Bool.false_ne_true)
  | cons d dimensions =>
      obtain ⟨buckets, hat, hall⟩ := areAnsweredBy_bucketLevels_cons.1 hanswered
      rw [List.map_cons, bucketPaths, hat] at hpath
      obtain ⟨bucket, hmem, hpath⟩ := List.mem_flatMap.1 hpath
      obtain ⟨rest, hrest, rfl⟩ := List.mem_map.1 hpath
      obtain ⟨hbucket, hinside⟩ := hall bucket hmem
      obtain ⟨hlength, hkeys, hend, hmetrics⟩ := node_of_path hbucket hinside hrest
      obtain ⟨key, hkey⟩ := hbucket.key
      rw [metricAggregations_eq hfields hnodup, areAnsweredBy_listedAggregations hfields]
        at hmetrics
      rw [List.getLastD_cons]
      exact ⟨congrArg _ hlength, List.forall_mem_cons.2 ⟨⟨_, hkey⟩, hkeys⟩, fun m hm =>
        answer?_eq_metricValue hfields hnodup hm (hmetrics m hm) fun _ => hend⟩

/-! ### The rows of an answer -/

/-- A compiled request has the levels and the metrics of its totals. -/
theorem Target.aggregations_of_compile {t : Target} {request : Request} {q : Query}
    (hcompile : t.compile request = .ok q) :
    ∃ (dimensions : List (String × String)) (fields : List MetricField),
      q.aggregations = bucketLevels fields request.aggregate.groupLimit dimensions ∧
      dimensions.map (·.1) = request.aggregate.groupBy.map Path.label ∧
      q.dimensions = request.aggregate.groupBy.map Path.label ∧
      Compiles request.aggregate.metrics fields ∧
      q.metrics = request.aggregate.metrics.map Metric.label := by
  obtain ⟨_, _, dimensions, fields, -, -, hdimensions, hfields, rfl⟩ :=
    compile_eq_ok_iff.1 hcompile
  have hlabels : dimensions.map (·.1) = request.aggregate.groupBy.map Path.label := by
    refine Result.map_eq_of_mapM_eq_ok (fun path found hfound => ?_) hdimensions
    obtain ⟨field, _, hpure⟩ := Result.bind_eq_ok.1 hfound
    cases hpure
    rfl
  have hcompiles : Compiles request.aggregate.metrics fields := by
    have hmap : fields.map (fun f => (f.label, f.field.isSome)) =
        request.aggregate.metrics.map fun m => (m.label, m.path.isSome) := by
      refine Result.map_eq_of_mapM_eq_ok (fun m found hfound => ?_) hfields
      exact Prod.ext_iff.2 (metricField_eq_ok hfound)
    rw [← List.forall₂_eq_eq_eq, List.forall₂_map_left_iff, List.forall₂_map_right_iff] at hmap
    exact hmap.flip.imp fun _ _ h => Prod.mk.inj h
  exact ⟨dimensions, fields, rfl, hlabels, hlabels, hcompiles, hcompiles.map_label⟩

/-- The rows of an answer are those of its innermost buckets, in the same order. -/
theorem Target.areRowsOf_totalsRows {t : Target} {request : Request} {q : Query}
    (hcompile : t.compile request = .ok q) (hnodup : (q.dimensions ++ q.metrics).Nodup)
    {answer : Json} (hanswered : AreAnsweredBy q.aggregations answer) :
    List.Forall₂ (IsRowOf request.aggregate answer) (bucketPaths q.dimensions answer)
      (q.totalsRows answer) := by
  obtain ⟨dimensions, fields, haggregations, hdimensions, hlevels, hfields, hmetrics⟩ :=
    aggregations_of_compile hcompile
  rw [haggregations] at hanswered
  rw [Query.totalsRows, rowsFrom_eq hnodup, List.forall₂_map_right_iff, List.forall₂_same]
  intro path hpath
  have hmetricLabels : (request.aggregate.metrics.map Metric.label).Nodup :=
    hmetrics ▸ (List.nodup_append.1 hnodup).2.1
  rw [hlevels, ← hdimensions] at hpath
  obtain ⟨hlength, hkeys, hanswers⟩ := keys_and_metrics_of_path hfields hmetricLabels hanswered hpath
  have hlevelCount : dimensions.length = request.aggregate.groupBy.length := by
    simpa using congrArg List.length hdimensions
  let row : Row := q.dimensions.zip (path.map keyOf) ++ q.metrics.map fun label =>
    (label, metricValue (path.getLastD answer) label)
  have hlabels : row.map (·.1) = q.dimensions ++ q.metrics := by
    rw [List.map_append, List.map_fst_zip, List.map_map]
    · simp [Function.comp_def]
    · simp [hlevels, hlength, hlevelCount]
  have hrow {label : String} {value : Json} (hmem : (label, value) ∈ row) :
      row.lookup label = some value :=
    lookup_of_mem (hlabels.symm ▸ hnodup) hmem
  show IsRowOf request.aggregate answer path row
  refine ⟨by rw [hlabels, hlevels, hmetrics, Aggregate.columnLabels], ?_, fun m hm => ?_⟩
  · refine List.forall₂_iff_zip.2 ⟨(hlength.trans hlevelCount).symm, fun {p b} hmem => ?_⟩
    obtain ⟨key, hkey⟩ := hkeys b (List.of_mem_zip hmem).2
    refine ⟨key, hkey, hrow (List.mem_append_left _ ?_)⟩
    rw [hlevels, List.zip_map, List.mem_map]
    exact ⟨(p, b), hmem, by simp [keyOf, hkey]⟩
  · have hempty : dimensions.isEmpty = request.aggregate.groupBy.isEmpty := by
      rw [← List.isEmpty_map (f := Prod.fst), hdimensions, List.isEmpty_map]
    refine ⟨_, hempty ▸ hanswers m hm, hrow (List.mem_append_right _ ?_)⟩
    rw [hmetrics, List.map_map]
    exact List.mem_map_of_mem hm

end Listing.SearchIndex

/-
# Groups in levels of buckets

A search has a level of buckets for each group, and only the innermost level has a limit. All levels
above it have the same buckets with and without one. In the innermost level the key comes last in
the order, so there is one way to put its buckets in order, and a limit leaves the first of them, as
long as it is not above the number of buckets that a level has without one.
-/
import Listing.Proofs.FirstGroups
import Listing.Proofs.GroupOrder
import Mathlib.Data.List.Flatten

namespace Listing.SearchIndex

variable {α : Type} {index : Statistics α} {c : Collation} {n : Nat} {limit : Option Nat}
  {fields : List MetricField} {dimensions : List (String × String)}

/-- The keys of the buckets around the innermost one. -/
def outerKeys (path : List Bucket) : List Datum := path.dropLast.map (· keyOrder)

/-- Of all paths that are shown, the first ones of each parent are kept, in the same order. -/
def KeepsFirst (n : Nat) (shown kept : List (List Bucket)) : Prop :=
  kept.Sublist shown ∧ ∀ parent, kept.filter (outerKeys · = parent) =
    (shown.filter (outerKeys · = parent)).take n

/-- Inside of the innermost buckets there are no further ones. -/
theorem ne_buckets_of_mem {grouped : Bool} {entry : String × Aggregation}
    (hentry : entry ∈ metricAggregations grouped fields) (field : String) (size : Nat)
    (order : List (String × Direction)) (inner : Aggregations) :
    entry.2 ≠ .buckets field size order inner := by
  have hmetric : ∀ (m : MetricField), ∀ a ∈ m.aggregation? grouped,
      a ≠ .buckets field size order inner := by
    intro m a ha
    unfold MetricField.aggregation? at ha
    split at ha
    · split at ha <;> cases ha
      exact nofun
    · cases ha
      exact nofun
  rw [metricAggregations] at hentry
  induction fields using List.reverseRecOn with
  | nil => cases hentry
  | append_singleton fields m ih =>
      rw [List.foldl_append, List.foldl_cons, List.foldl_nil] at hentry
      split at hentry
      · rename_i a ha
        rcases mem_insertEntry hentry with rfl | hmem
        · exact hmetric m a ha
        · exact ih hmem
      · exact ih hentry

/-- A level of buckets is the only aggregation around what is inside of it. -/
theorem exists_bucketLevels_eq (fields : List MetricField) (limit : Option Nat)
    (d : String × String) (dimensions : List (String × String)) :
    ∃ label field size order inner, bucketLevels fields limit (d :: dimensions) =
      [(label, .buckets field size order inner)] := by
  cases dimensions with
  | nil => exact ⟨_, _, _, _, _, rfl⟩
  | cons d' dimensions => exact ⟨_, _, _, _, _, rfl⟩

namespace Statistics

/-- Metrics are not in further buckets. -/
theorem lists_metricAggregations {grouped : Bool} {docs : List α} {paths : List (List Bucket)} :
    index.Lists c (metricAggregations grouped fields) docs paths ↔ paths = [[]] := by
  unfold Lists
  split
  · rename_i hlevel
    exact absurd rfl (ne_buckets_of_mem (hlevel ▸ List.mem_cons_self) _ _ _ _)
  · rfl

/-- Buckets that have others inside do not depend on them. -/
theorem bucket_eq (index : Statistics α) (field : String) (docs : List α) (key : Datum)
    (d : String × String) :
    index.bucket field (bucketLevels fields limit (d :: dimensions)) docs key =
      index.bucket field [] docs key := by
  obtain ⟨label, field', size, order, inner, heq⟩ :=
    exists_bucketLevels_eq fields limit d dimensions
  rw [heq]
  funext name
  unfold bucket
  rw [List.lookup_cons, List.lookup_nil]
  cases name == label <;> rfl

/-- A level of buckets around others. -/
theorem lists_cons_cons {label field : String} {d : String × String} {docs : List α}
    {paths : List (List Bucket)} :
    index.Lists c (bucketLevels fields limit ((label, field) :: d :: dimensions)) docs paths ↔
      ∃ (arranged : List Datum) (below : Datum → List (List Bucket)),
        arranged.Perm (index.keys field docs) ∧ Sorted (c.compare .ascending) arranged ∧
        (∀ key, index.Lists c (bucketLevels fields limit (d :: dimensions))
          (index.inside field docs key) (below key)) ∧
        paths = (arranged.take defaultBuckets).flatMap fun key =>
          (below key).map (index.bucket field [] docs key :: ·) := by
  have horder : (fun key key' => c.compareBy [(keyOrder, .ascending)]
      (index.bucket field [] docs key) (index.bucket field [] docs key')) = c.compare .ascending :=
    funext fun key => funext fun key' => c.compareBy_singleton keyOrder .ascending _ _
  rw [bucketLevels, Lists]
  · simp only [bucket_eq, horder]
  · exact List.cons_ne_nil d dimensions

/-- The innermost level of buckets. -/
theorem lists_singleton {label field : String} {docs : List α} {paths : List (List Bucket)} :
    index.Lists c (bucketLevels fields limit [(label, field)]) docs paths ↔
      ∃ arranged : List Datum, arranged.Perm (index.keys field docs) ∧
        Sorted (c.compareOn (bucketOrder fields)
          (index.bucket field (metricAggregations true fields) docs)) arranged ∧
        paths = (arranged.take (limit.getD defaultBuckets)).map fun key =>
          [index.bucket field (metricAggregations true fields) docs key] := by
  rw [bucketLevels, Lists]
  simp only [lists_metricAggregations]
  constructor
  · rintro ⟨arranged, below, hperm, hsorted, hbelow, rfl⟩
    refine ⟨arranged, hperm, hsorted, ?_⟩
    simp only [hbelow, List.map_cons, List.map_nil]
    exact List.map_eq_flatMap.symm
  · rintro ⟨arranged, hperm, hsorted, rfl⟩
    refine ⟨arranged, fun _ => [[]], hperm, hsorted, fun _ => rfl, ?_⟩
    exact List.map_eq_flatMap

/-- There is a bucket for each level on a path. -/
theorem length_of_lists {docs : List α} {paths : List (List Bucket)}
    (hlists : index.Lists c (bucketLevels fields limit dimensions) docs paths) :
    ∀ path ∈ paths, path.length = dimensions.length := by
  induction dimensions generalizing docs paths with
  | nil =>
      intro path hpath
      rw [lists_metricAggregations.1 hlists, List.mem_singleton] at hpath
      rw [hpath]
      rfl
  | cons first rest ih =>
      intro path hpath
      cases rest with
      | nil =>
          obtain ⟨arranged, -, -, rfl⟩ := lists_singleton.1 hlists
          obtain ⟨key, -, rfl⟩ := List.mem_map.1 hpath
          rfl
      | cons d rest =>
          obtain ⟨arranged, below, -, -, hbelow, rfl⟩ := lists_cons_cons.1 hlists
          obtain ⟨key, -, hpath⟩ := List.mem_flatMap.1 hpath
          obtain ⟨inner, hinner, rfl⟩ := List.mem_map.1 hpath
          rw [List.length_cons, ih (hbelow key) inner hinner]
          rfl

/-- All documents can be put in buckets. -/
theorem exists_lists (hlinear : c.IsLinear) (dimensions : List (String × String)) (docs : List α) :
    ∃ paths, index.Lists c (bucketLevels fields limit dimensions) docs paths := by
  induction dimensions generalizing docs with
  | nil => exact ⟨_, lists_metricAggregations.2 rfl⟩
  | cons first rest ih =>
      obtain ⟨label, field⟩ := first
      cases rest with
      | nil =>
          have hcmp := hlinear.transCmp_compareOn (bucketOrder fields)
            (index.bucket field (metricAggregations true fields) docs)
          obtain ⟨arranged, hperm, hsorted⟩ := @exists_sorted _ _ hcmp (index.keys field docs)
          exact ⟨_, lists_singleton.2 ⟨arranged, hperm, hsorted, rfl⟩⟩
      | cons d rest =>
          have := hlinear.trans .ascending
          obtain ⟨arranged, hperm, hsorted⟩ :=
            exists_sorted (c.compare .ascending) (index.keys field docs)
          choose below hbelow using fun key => ih (index.inside field docs key)
          exact ⟨_, lists_cons_cons.2 ⟨arranged, below, hperm, hsorted, hbelow, rfl⟩⟩

section Below

variable {field : String} {docs : List α} {keys : List Datum}
  {below : Datum → List (List Bucket)}

/-- The keys around the innermost bucket below another one. -/
theorem outerKeys_bucket {key : Datum} {path : List Bucket} (hpath : path ≠ []) :
    outerKeys (index.bucket field [] docs key :: path) = key :: outerKeys path := by
  rw [outerKeys, List.dropLast_cons_of_ne_nil hpath]
  rfl

/-- No path below other buckets is without a parent. -/
theorem filter_flatMap_nil (hbelow : ∀ key, ∀ path ∈ below key, path ≠ []) :
    (keys.flatMap fun key => (below key).map (index.bucket field [] docs key :: ·)).filter
      (outerKeys · = []) = [] := by
  refine List.filter_eq_nil_iff.2 fun path hpath hnone => ?_
  obtain ⟨key, -, hpath⟩ := List.mem_flatMap.1 hpath
  obtain ⟨inner, hinner, rfl⟩ := List.mem_map.1 hpath
  rw [outerKeys_bucket (hbelow key inner hinner)] at hnone
  cases of_decide_eq_true hnone

/-- The paths of one parent are all below the same bucket. -/
theorem filter_flatMap_cons (hnodup : keys.Nodup)
    (hbelow : ∀ key, ∀ path ∈ below key, path ≠ []) (key : Datum) (parent : List Datum) :
    (keys.flatMap fun key => (below key).map (index.bucket field [] docs key :: ·)).filter
      (outerKeys · = key :: parent) =
        if key ∈ keys then ((below key).filter (outerKeys · = parent)).map
          (index.bucket field [] docs key :: ·) else [] := by
  have hkey (key' : Datum) : ((below key').map (index.bucket field [] docs key' :: ·)).filter
      (outerKeys · = key :: parent) =
        ((below key').filter fun path => key' = key ∧ outerKeys path = parent).map
          (index.bucket field [] docs key' :: ·) := by
    rw [List.filter_map]
    refine congrArg (List.map _) (List.filter_congr fun path hpath => ?_)
    rw [Function.comp_apply, outerKeys_bucket (hbelow key' path hpath), decide_eq_decide,
      List.cons_eq_cons]
  rw [List.filter_flatMap, flatMap_eq_of_nodup (k := key) hnodup]
  · rw [hkey key]
    simp only [true_and]
  · intro key' hne
    rw [hkey key']
    simp [hne]

/-- The first paths below each bucket are the first ones below all of them. -/
theorem keepsFirst_flatMap {kept : Datum → List (List Bucket)} (hnodup : keys.Nodup)
    (hbelow : ∀ key, ∀ path ∈ below key, path ≠ [])
    (hkept : ∀ key, KeepsFirst n (below key) (kept key)) :
    KeepsFirst n
      (keys.flatMap fun key => (below key).map (index.bucket field [] docs key :: ·))
      (keys.flatMap fun key => (kept key).map (index.bucket field [] docs key :: ·)) := by
  have hkeptBelow : ∀ key, ∀ path ∈ kept key, path ≠ [] :=
    fun key path hpath => hbelow key path ((hkept key).1.subset hpath)
  refine ⟨.flatMap_right keys fun key _ => (hkept key).1.map _, fun parent => ?_⟩
  cases parent with
  | nil => rw [filter_flatMap_nil hbelow, filter_flatMap_nil hkeptBelow, List.take_nil]
  | cons key parent =>
      rw [filter_flatMap_cons hnodup hbelow, filter_flatMap_cons hnodup hkeptBelow,
        (hkept key).2 parent]
      split
      · exact List.map_take
      · exact List.take_nil.symm

end Below

/-- Innermost buckets are all of one parent. -/
theorem keepsFirst_take {level : Datum → Bucket} {keys : List Datum} (hlimit : n ≤ defaultBuckets) :
    KeepsFirst n ((keys.take defaultBuckets).map fun key => [level key])
      ((keys.take n).map fun key => [level key]) := by
  have htake : ((keys.take n).map fun key => [level key]) =
      ((keys.take defaultBuckets).map fun key => [level key]).take n := by
    rw [← List.map_take, List.take_take, Nat.min_eq_left hlimit]
  rw [htake]
  refine ⟨List.take_sublist n _, fun parent => ?_⟩
  have hall (keys : List Datum) : (keys.map fun key => [level key]).filter (outerKeys · = parent) =
      if parent = [] then keys.map fun key => [level key] else [] := by
    rw [List.filter_map]
    split
    · rename_i hnone
      exact congrArg _ (List.filter_eq_self.2 fun key _ => decide_eq_true hnone.symm)
    · rename_i hsome
      rw [List.filter_eq_nil_iff.2 fun key _ hnone => hsome (of_decide_eq_true hnone).symm]
      rfl
  rw [← htake, hall, hall]
  split
  · exact htake
  · exact List.take_nil.symm

section Arranged

variable {docs : List α} {arranged arranged' : List Datum}

/-- Keys are in order in one way only. -/
theorem eq_of_ascending (hlinear : c.IsLinear) (hsorted : Sorted (c.compare .ascending) arranged)
    (hsorted' : Sorted (c.compare .ascending) arranged') (hperm : arranged.Perm arranged') :
    arranged = arranged' :=
  have := hlinear.trans .ascending
  hsorted.eq_of_perm hsorted' hperm fun _ _ _ _ halike => hlinear.differ halike

/-- Since the key comes last in their order, so are innermost buckets. -/
theorem eq_of_bucketOrder {field : String} {inner : Aggregations} (hlinear : c.IsLinear)
    (hsorted : Sorted (c.compareOn (bucketOrder fields) (index.bucket field inner docs)) arranged)
    (hsorted' : Sorted (c.compareOn (bucketOrder fields) (index.bucket field inner docs)) arranged')
    (hperm : arranged.Perm arranged') : arranged = arranged' := by
  have := hlinear.transCmp_compareOn (bucketOrder fields) (index.bucket field inner docs)
  refine hsorted.eq_of_perm hsorted' hperm fun key _ key' _ halike => ?_
  exact hlinear.eq_of_compareBy halike (keyOrder, .ascending)
    (List.mem_append_right _ (List.mem_singleton.2 rfl))

end Arranged

/-- With a limit on the innermost level, the first paths of each parent are listed. -/
theorem lists_limited (hlinear : c.IsLinear) (hlimit : n ≤ defaultBuckets)
    (hgrouped : dimensions ≠ []) {docs : List α} {shown : List (List Bucket)}
    (hshown : index.Lists c (bucketLevels fields none dimensions) docs shown) :
    (∃ kept, index.Lists c (bucketLevels fields (some n) dimensions) docs kept) ∧
      ∀ kept, index.Lists c (bucketLevels fields (some n) dimensions) docs kept →
        KeepsFirst n shown kept := by
  induction dimensions generalizing docs shown with
  | nil => exact absurd rfl hgrouped
  | cons first rest ih =>
      obtain ⟨label, field⟩ := first
      cases rest with
      | nil =>
          obtain ⟨arranged, hperm, hsorted, rfl⟩ := lists_singleton.1 hshown
          refine ⟨⟨_, lists_singleton.2 ⟨arranged, hperm, hsorted, rfl⟩⟩, fun kept hkept => ?_⟩
          obtain ⟨arranged', hperm', hsorted', rfl⟩ := lists_singleton.1 hkept
          rw [← eq_of_bucketOrder hlinear hsorted hsorted' (hperm.trans hperm'.symm)]
          exact keepsFirst_take hlimit
      | cons d rest =>
          obtain ⟨arranged, below, hperm, hsorted, hbelow, rfl⟩ := lists_cons_cons.1 hshown
          have hinner (key : Datum) := ih (List.cons_ne_nil d rest) (hbelow key)
          choose cut hcut using fun key => (hinner key).1
          refine ⟨⟨_, lists_cons_cons.2 ⟨arranged, cut, hperm, hsorted, hcut, rfl⟩⟩,
            fun kept hkept => ?_⟩
          obtain ⟨arranged', below', hperm', hsorted', hbelow', rfl⟩ := lists_cons_cons.1 hkept
          rw [← eq_of_ascending hlinear hsorted hsorted' (hperm.trans hperm'.symm)]
          have hnodup : arranged.Nodup := hperm.nodup_iff.2 (nodup_eraseDups _)
          refine keepsFirst_flatMap (hnodup.sublist (List.take_sublist _ _)) ?_
            fun key => (hinner key).2 _ (hbelow' key)
          intro key path hpath hnil
          have hlength := length_of_lists (hbelow key) path hpath
          rw [hnil] at hlength
          cases hlength

end Statistics

/-- The row that a path leads to has the parent that is around its innermost bucket. -/
theorem parent_groupRow {a : Aggregate} (hnodup : a.groupBy.Nodup) {path : List Bucket}
    (hlength : path.length = a.groupBy.length) : a.parent (groupRow a path) = outerKeys path := by
  have hkeys : a.groupBy.map (fun p => groupRow a path (.group p)) = path.map (· keyOrder) := by
    rw [← List.forall₂_eq_eq_eq, List.forall₂_map_left_iff, List.forall₂_map_right_iff]
    exact forall₂_groupRow hnodup hlength
  rw [Aggregate.parent, outerKeys, List.map_dropLast, hkeys, List.map_dropLast]

/-- The rows of the first paths are the first ones of each parent. -/
theorem keepsFirst_groupRow {a : Aggregate} (hnodup : a.groupBy.Nodup)
    {shown kept : List (List Bucket)} (hlength : ∀ path ∈ shown, path.length = a.groupBy.length)
    (hkept : KeepsFirst n shown kept) :
    a.KeepsFirst n (shown.map (groupRow a)) (kept.map (groupRow a)) := by
  have hfilter {paths : List (List Bucket)} (hpaths : paths ⊆ shown) (parent : List Datum) :
      (paths.map (groupRow a)).filter (a.parent · = parent) =
        (paths.filter (outerKeys · = parent)).map (groupRow a) := by
    rw [List.filter_map]
    refine congrArg (List.map _) (List.filter_congr fun path hpath => ?_)
    rw [Function.comp_apply, parent_groupRow hnodup (hlength path (hpaths hpath))]
  refine ⟨hkept.1.map _, fun parent => ?_⟩
  rw [hfilter hkept.1.subset, hfilter (List.Subset.refl shown), hkept.2 parent, List.map_take]

end Listing.SearchIndex

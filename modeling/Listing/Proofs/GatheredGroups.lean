/-
# Groups that a pipeline has gathered

A pipeline with a limit sorts the documents of groups, gathers those of each parent in a list, and
leaves the first documents of every list. As every document has a group of its own, there is one way
to sort them, and gathering keeps it. What comes out is sorted again, as the lists come in no
particular order.
-/
import Listing.Proofs.FirstGroups
import Listing.Proofs.GroupOrder

namespace Listing.Document

variable {store : Accumulation} {c : Collation} {a : Aggregate} {n : Nat}

/-- The row of totals that the document of a group holds. -/
def GroupDoc.row (d : GroupDoc) : GroupRow := groupRow d.fields

/-- Every document has a group of its own. -/
def HaveGroups (a : Aggregate) (docs : List GroupDoc) : Prop :=
  (docs.map fun d => a.groupBy.map fun path => d.row (.group path)).Nodup

namespace Accumulation

theorem runs_single {stage : Stage} {docs out : List GroupDoc} :
    store.Runs c [stage] docs out ↔ store.Leaves c stage docs out := by
  constructor
  · rintro ⟨between, hleaves, rfl⟩
    exact hleaves
  · exact fun hleaves => ⟨out, hleaves, rfl⟩

theorem runs_append {stages more : List Stage} {docs out : List GroupDoc} :
    store.Runs c (stages ++ more) docs out ↔
      ∃ between, store.Runs c stages docs between ∧ store.Runs c more between out := by
  induction stages generalizing docs with
  | nil => simp [Runs]
  | cons stage stages ih =>
      simp only [List.cons_append, Runs, ih]
      constructor
      · rintro ⟨first, hfirst, between, hstages, hmore⟩
        exact ⟨between, ⟨first, hfirst, hstages⟩, hmore⟩
      · rintro ⟨between, ⟨first, hfirst, hstages⟩, hmore⟩
        exact ⟨first, hfirst, between, hstages, hmore⟩

/-- There is one way to find documents. -/
theorem runs_append_of_finds {before stages : List Stage} (hfinds : ∀ stage ∈ before, stage.finds)
    {docs out : List GroupDoc} : store.Runs c (before ++ stages) docs out ↔
      store.Runs c stages (before.foldl (fun docs stage => store.found stage docs) docs) out := by
  induction before generalizing docs with
  | nil => rfl
  | cons stage before ih =>
      obtain ⟨hstage, hrest⟩ := List.forall_mem_cons.1 hfinds
      have hleaves (between : List GroupDoc) :
          store.Leaves c stage docs between ↔ between = store.found stage docs := by
        cases stage with
        | lookup | keep => rfl
        | unwind name keepEmpty =>
            cases keepEmpty with
            | false => cases hstage
            | true => rfl
        | _ => cases hstage
      simp only [List.cons_append, Runs, hleaves, exists_eq_left, ih hrest, List.foldl_cons]

section Grouping

variable {dimensions : List (String × String)} {accumulators : List (String × Accumulator)}

/-- However often documents are grouped, the same documents come out. -/
theorem perm_of_runs_grouping {docs out out' : List GroupDoc}
    (hout : store.Runs c (groupingStages dimensions accumulators) docs out)
    (hout' : store.Runs c (groupingStages dimensions accumulators) docs out') : out.Perm out' := by
  rw [groupingStages] at hout hout'
  obtain ⟨between, hgroup, hlengths⟩ := runs_append.1 hout
  obtain ⟨between', hgroup', hlengths'⟩ := runs_append.1 hout'
  have hperm := (runs_single.1 hgroup).trans (runs_single.1 hgroup').symm
  split at hlengths
  · rw [if_pos (by assumption)] at hlengths'
    rw [hlengths, hlengths']
    exact hperm
  · rw [if_neg (by assumption)] at hlengths'
    rw [runs_single.1 hlengths, runs_single.1 hlengths']
    exact hperm.map _

/-- Under different names, the values of a list are found in its order. -/
theorem map_lookup_zip {names : List String} {values : List Datum} (hnodup : names.Nodup)
    (hlength : names.length = values.length) (default : String → Datum) :
    names.map (fun name => ((names.zip values).lookup name).getD (default name)) = values := by
  induction names generalizing values with
  | nil => exact (List.eq_nil_of_length_eq_zero hlength.symm).symm
  | cons name names ih =>
      cases values with
      | nil => cases hlength
      | cons v values =>
          obtain ⟨hfresh, hnodup⟩ := List.nodup_cons.1 hnodup
          rw [List.map_cons, List.zip_cons_cons, List.lookup_cons, beq_self_eq_true]
          refine congrArg (v :: ·) (Eq.trans (List.map_congr_left fun other hother => ?_)
            (ih hnodup (Nat.succ.inj hlength)))
          have hne : other ≠ name := fun heq => hfresh (heq ▸ hother)
          rw [List.lookup_cons, beq_false_of_ne hne]

/-- The document of a group has the values of the group. -/
theorem groups_grouped (ha : a.IsRead)
    (hdimensions : dimensions.map (·.1) = a.groupBy.map Path.label) {key : List Datum}
    (hlength : key.length = dimensions.length) (members : List GroupDoc) :
    (a.groupBy.map fun path =>
      (store.grouped dimensions accumulators key members).row (.group path)) = key := by
  have hnames : dimensions.map (idField ·.1) = a.groupBy.map fun path => idField path.label := by
    have hmap := congrArg (List.map idField) hdimensions
    rwa [List.map_map, List.map_map] at hmap
  have hnodup : (dimensions.map (idField ·.1)).Nodup := by
    rw [hnames]
    have hlabels := ha.nodup_groupLabels.map (f := idField) fun label label' heq =>
      (String.append_right_inj "_id.").1 heq
    rwa [List.map_map] at hlabels
  have hvalues := map_lookup_zip hnodup (by rw [List.length_map, hlength]) fun name =>
    ((accumulators.lookup name).map (store.accumulate · members)).getD .null
  rw [hnames, List.map_map, ← hnames] at hvalues
  exact hvalues

/-- What is counted afterwards was accumulated. -/
theorem mem_identityLabels {label : String} (hlabel : label ∈ identityLabels accumulators) :
    label ∈ accumulators.map (·.1) := by
  obtain ⟨⟨other, accumulator⟩, hentry, hsome⟩ := List.mem_filterMap.1 hlabel
  cases accumulator with
  | identities =>
      cases hsome
      exact List.mem_map_of_mem hentry
  | _ => cases hsome

/-- Grouping makes a document for each group. -/
theorem haveGroups_of_runs_grouping (ha : a.IsRead)
    (hdimensions : dimensions.map (·.1) = a.groupBy.map Path.label)
    (haccumulators : accumulators.map (·.1) = a.metrics.map Metric.label)
    {docs out : List GroupDoc}
    (hout : store.Runs c (groupingStages dimensions accumulators) docs out) : HaveGroups a out := by
  rw [groupingStages] at hout
  obtain ⟨between, hgroup, hlengths⟩ := runs_append.1 hout
  have hgroups : HaveGroups a between := by
    have hkeys : (docs.map (groupKey dimensions)).eraseDups.map (fun key =>
        a.groupBy.map fun path => (store.grouped dimensions accumulators key
          (docs.filter (groupKey dimensions · = key))).row (.group path)) =
        (docs.map (groupKey dimensions)).eraseDups := by
      refine (List.map_congr_left fun key hkey => ?_).trans (List.map_id _)
      obtain ⟨d, _, rfl⟩ := List.mem_map.1 (List.mem_eraseDups.1 hkey)
      exact groups_grouped ha hdimensions (List.length_map _) _
    refine (((runs_single.1 hgroup).map _).nodup_iff).2 ?_
    rw [List.map_map]
    exact hkeys.symm ▸ nodup_eraseDups _
  split at hlengths
  · rw [hlengths]
    exact hgroups
  · -- Lengths are put in the place of metrics.
    have hrow (d : GroupDoc) (path : Path) :
        (store.withLengths (identityLabels accumulators) d).row (.group path) =
          d.row (.group path) := by
      refine if_neg fun hmem => ?_
      have hlabel := mem_identityLabels hmem
      rw [haccumulators] at hlabel
      obtain ⟨m, _, heq⟩ := List.mem_map.1 hlabel
      exact idField_ne_label path.label m heq.symm
    rw [runs_single.1 hlengths, HaveGroups, List.map_map]
    simp only [Function.comp_def, hrow]
    exact hgroups

end Grouping

section Ordering

variable {docs shown kept : List GroupDoc}

/-- A sort of groups puts documents in the order of totals. -/
theorem leaves_sort_iff (hgrouped : a.groupBy ≠ []) {out : List GroupDoc} :
    store.Leaves c (.sort (groupOrder (a.groupBy.map Path.label) (a.metrics.map Metric.label)))
        docs out ↔
      out.Perm docs ∧ Sorted (c.compareOn a.order GroupDoc.row) out := by
  have hcompare : (fun d d' : GroupDoc => c.compareBy
      (groupOrder (a.groupBy.map Path.label) (a.metrics.map Metric.label)) d.fields d'.fields) =
        c.compareOn a.order GroupDoc.row :=
    funext fun d => funext fun d' => compareBy_groupOrder c hgrouped d.fields d'.fields
  rw [Leaves, hcompare]

/-- There is one way to sort documents that have groups of their own. -/
theorem eq_of_sorted (hlinear : c.IsLinear) (hgrouped : a.groupBy ≠ [])
    (hgroups : HaveGroups a docs) (hshown : Sorted (c.compareOn a.order GroupDoc.row) shown)
    (hkept : Sorted (c.compareOn a.order GroupDoc.row) kept)
    (hsublist : shown ⊆ docs) (hperm : shown.Perm kept) : shown = kept := by
  have := hlinear.transCmp_compareOn a.order GroupDoc.row
  refine hshown.eq_of_perm hkept hperm fun d hd d' hd' halike => ?_
  exact List.inj_on_of_nodup_map hgroups (hsublist hd) (hsublist hd')
    (Aggregate.groups_eq_of_order hlinear hgrouped halike)

/-- Documents that were unwound are replaced by what they hold. -/
theorem forall₂_holding_iff {name : String} {out : List GroupDoc} :
    List.Forall₂ (fun d item => d.lists name = [item])
        (docs.flatMap fun d => (d.lists name).map (d.holding name)) out ↔
      out = docs.flatMap (·.lists name) := by
  have hlists : (docs.flatMap fun d => (d.lists name).map (d.holding name)).map (·.lists name) =
      (docs.flatMap (·.lists name)).map ([·]) := by
    rw [List.map_flatMap, List.map_flatMap]
    refine List.flatMap_congr fun d _ => ?_
    rw [List.map_map]
    exact List.map_congr_left fun item _ => if_pos rfl
  have hsingle : Function.Injective fun item : GroupDoc => [item] :=
    fun item item' heq => List.head_eq_of_cons_eq heq
  have hequal : ((docs.flatMap fun d => (d.lists name).map (d.holding name)).map (·.lists name) =
      out.map ([·])) ↔ List.Forall₂ (fun d item => d.lists name = [item])
        (docs.flatMap fun d => (d.lists name).map (d.holding name)) out := by
    rw [← List.forall₂_eq_eq_eq, List.forall₂_map_left_iff, List.forall₂_map_right_iff]
  rw [← hequal, hlists, (List.map_injective_iff.2 hsingle).eq_iff]
  exact eq_comm

/-- Lists of documents are cut and unwound. -/
theorem runs_cutLists_iff {name : String} {out : List GroupDoc} :
    store.Runs c [.project [(name, .firstOf name n)], .unwind name false, .promote name] docs out ↔
      out = docs.flatMap fun d => (d.lists name).take n := by
  have hlists (d : GroupDoc) :
      (projected [(name, .firstOf name n)] d).lists name = (d.lists name).take n := by
    simp [projected]
  simp only [Runs, Leaves, exists_eq_left, forall₂_holding_iff, List.flatMap_map, hlists]

/-- Documents of groups are gathered by their parents. -/
theorem leaves_gather_iff {out : List GroupDoc} :
    store.Leaves c (.group ((a.groupBy.map Path.label).dropLast.map fun label =>
        (label, idField label)) [(rowsField, .documents)]) docs out ↔
      out.Perm ((docs.map (a.parent ∘ GroupDoc.row)).eraseDups.map fun parent =>
        store.grouped ((a.groupBy.map Path.label).dropLast.map fun label => (label, idField label))
          [(rowsField, .documents)] parent
          (docs.filter ((a.parent ∘ GroupDoc.row) · = parent))) := by
  have hkey : groupKey ((a.groupBy.map Path.label).dropLast.map fun label =>
      (label, idField label)) = a.parent ∘ GroupDoc.row := by
    funext d
    rw [groupKey, ← List.map_dropLast, List.map_map, List.map_map]
    rfl
  rw [Leaves, hkey]

/-- Of sorted documents, a limit leaves the first ones of each parent. -/
theorem runs_limitStages_iff (hlinear : c.IsLinear) (hgrouped : a.groupBy ≠ [])
    (hgroups : HaveGroups a shown) (hshown : Sorted (c.compareOn a.order GroupDoc.row) shown) :
    store.Runs c (limitStages (a.groupBy.map Path.label).dropLast
        (groupOrder (a.groupBy.map Path.label) (a.metrics.map Metric.label)) n) shown kept ↔
      kept = firstOfEach (a.parent ∘ GroupDoc.row) n shown := by
  rw [limitStages]
  split
  · rename_i hparents
    have hparents : a.groupBy.dropLast = [] := by
      rwa [List.isEmpty_iff, ← List.map_dropLast, List.map_eq_nil_iff] at hparents
    have hone : ∀ d ∈ shown, (a.parent ∘ GroupDoc.row) d = [] := fun d _ => by
      rw [Function.comp_apply, Aggregate.parent, hparents, List.map_nil]
    rw [firstOfEach_of_forall hone, runs_single, Leaves]
  · have hfirst := firstOfEach_sublist (a.parent ∘ GroupDoc.row) n shown
    have hsorted : Sorted (c.compareOn a.order GroupDoc.row)
        (firstOfEach (a.parent ∘ GroupDoc.row) n shown) :=
      hshown.sublist hfirst
    -- What the cut lists hold are the first documents of each parent.
    have hcut : ∀ gathered, store.Leaves c (.group ((a.groupBy.map Path.label).dropLast.map
          fun label => (label, idField label)) [(rowsField, .documents)]) shown gathered →
        (gathered.flatMap fun d => (d.lists rowsField).take n).Perm
          (firstOfEach (a.parent ∘ GroupDoc.row) n shown) := by
      intro gathered hgathered
      refine ((leaves_gather_iff.1 hgathered).flatMap_right _).trans ?_
      rw [List.flatMap_map]
      refine flatMap_take_perm (nodup_eraseDups _) (fun d hd => ?_) n
      exact List.mem_eraseDups.2 (List.mem_map_of_mem hd)
    constructor
    · rintro ⟨gathered, hgathered, hrest⟩
      obtain ⟨left, hleft, hsort⟩ := (@runs_append _ _ [_, _, _] [_] _ _).1 hrest
      obtain rfl := runs_cutLists_iff.1 hleft
      obtain ⟨hperm, hordered⟩ := (leaves_sort_iff hgrouped).1 (runs_single.1 hsort)
      exact (eq_of_sorted hlinear hgrouped hgroups hsorted hordered hfirst.subset
        (hperm.trans (hcut gathered hgathered)).symm).symm
    · rintro rfl
      have hleft := hcut _ (leaves_gather_iff.2 (.refl _))
      refine ⟨_, leaves_gather_iff.2 (.refl _), (@runs_append _ _ [_, _, _] [_] _ _).2
        ⟨_, runs_cutLists_iff.2 rfl, ?_⟩⟩
      exact runs_single.2 ((leaves_sort_iff hgrouped).2 ⟨hleft.symm, hsorted⟩)

/-- Without a limit, documents are sorted. -/
theorem runs_orderStages_none (hgrouped : a.groupBy ≠ []) :
    store.Runs c (orderStages (a.groupBy.map Path.label) (a.metrics.map Metric.label) none) docs
        shown ↔ shown.Perm docs ∧ Sorted (c.compareOn a.order GroupDoc.row) shown := by
  have hsome : (a.groupBy.map Path.label).isEmpty = false := by simpa using hgrouped
  rw [orderStages, hsome, ← leaves_sort_iff hgrouped]
  exact runs_single

/-- With a limit, they are sorted and the first ones of each parent are left. -/
theorem runs_orderStages_some (hlinear : c.IsLinear) (hgrouped : a.groupBy ≠ [])
    (hgroups : HaveGroups a docs) (hperm : shown.Perm docs)
    (hshown : Sorted (c.compareOn a.order GroupDoc.row) shown) :
    store.Runs c (orderStages (a.groupBy.map Path.label) (a.metrics.map Metric.label) (some n)) docs
        kept ↔ kept = firstOfEach (a.parent ∘ GroupDoc.row) n shown := by
  have hsome : (a.groupBy.map Path.label).isEmpty = false := by simpa using hgrouped
  have hdistinct : HaveGroups a shown := ((hperm.map _).nodup_iff).2 hgroups
  have hlimit : store.Runs c (limitStages _ _ n) shown kept ↔ _ :=
    runs_limitStages_iff hlinear hgrouped hdistinct hshown
  rw [orderStages, hsome]
  constructor
  · rintro ⟨sorted, hsort, hrest⟩
    obtain ⟨hsorted, hordered⟩ := (leaves_sort_iff hgrouped).1 hsort
    obtain rfl := eq_of_sorted hlinear hgrouped hdistinct hshown hordered (List.Subset.refl _)
      (hperm.trans hsorted.symm)
    exact hlimit.1 hrest
  · rintro rfl
    exact ⟨shown, (leaves_sort_iff hgrouped).2 ⟨hperm, hshown⟩, hlimit.2 rfl⟩

end Ordering

section Result

/-- How the value of a key comes into the result. -/
def shownAs : GroupKey → Projection
  | .group path => .renamed (idField path.label)
  | .metric _ => .shown

variable (ha : a.IsRead) (hapart : a.LabelsApart)

include ha hapart

/-- The result shows what a key stands for under its label. -/
theorem lookup_resultShape {key : GroupKey} (hkey : key ∈ a.keys) :
    (resultShape (a.groupBy.map Path.label) (a.metrics.map Metric.label)).lookup key.label =
      some (shownAs key) := by
  let entry (key : GroupKey) : String × Projection := (key.label, shownAs key)
  have hentries : (a.groupBy.map Path.label).map (fun label => (label, .renamed (idField label))) ++
      (a.metrics.map Metric.label).map (·, .shown) = a.keys.map entry := by
    rw [Aggregate.keys, List.map_append, List.map_map, List.map_map, List.map_map, List.map_map]
    rfl
  have hnodup : ((a.keys.map entry).reverse.map (·.1)).Nodup := by
    rw [List.map_reverse, List.nodup_reverse, List.map_map]
    exact ha.nodup_labels hapart
  have hfound := lookup_of_mem hnodup (List.mem_reverse.2 (List.mem_map_of_mem hkey))
  rw [resultShape, lookup_written, List.cons_append, hentries, List.reverse_cons,
    List.lookup_append, hfound, Option.some_or]

/-- The row of a document of the result is that of the document of the group. -/
theorem resultRow_projected (d : GroupDoc) {key : GroupKey} (hkey : key ∈ a.keys) :
    resultRow (projected (resultShape (a.groupBy.map Path.label) (a.metrics.map Metric.label)) d)
      key = d.row key := by
  rw [resultRow, projected]
  dsimp only
  rw [lookup_resultShape ha hapart hkey]
  cases key <;> rfl

omit ha hapart in
/-- Totals show rows of all documents. -/
theorem exists_runs_totals (hlinear : c.IsLinear) (hgrouped : a.groupBy ≠ [])
    (dimensions : List (String × String)) (accumulators : List (String × Accumulator))
    (docs : List GroupDoc) :
    ∃ shown, store.Runs c (totalsStages a dimensions accumulators none) docs shown := by
  have := hlinear.transCmp_compareOn a.order GroupDoc.row
  have hgrouping : ∃ groups, store.Runs c (groupingStages dimensions accumulators) docs groups := by
    unfold groupingStages
    split
    · exact ⟨_, _, .refl _, rfl⟩
    · exact ⟨_, _, .refl _, _, rfl, rfl⟩
  obtain ⟨groups, hgroups⟩ := hgrouping
  obtain ⟨sorted, hperm, hsorted⟩ := exists_sorted (c.compareOn a.order GroupDoc.row) groups
  exact ⟨_, runs_append.2 ⟨sorted, runs_append.2 ⟨groups, hgroups,
    (runs_orderStages_none hgrouped).2 ⟨hperm, hsorted⟩⟩, runs_single.2 rfl⟩⟩

/-- Of the rows that totals show without a limit, those with a limit are the first ones of each
parent. -/
theorem runs_totals {dimensions : List (String × String)}
    {accumulators : List (String × Accumulator)} (hlinear : c.IsLinear) (hgrouped : a.groupBy ≠ [])
    (hdimensions : dimensions.map (·.1) = a.groupBy.map Path.label)
    (haccumulators : accumulators.map (·.1) = a.metrics.map Metric.label)
    {docs shown : List GroupDoc}
    (hshown : store.Runs c (totalsStages a dimensions accumulators none) docs shown) :
    (∃ kept, store.Runs c (totalsStages a dimensions accumulators (some n)) docs kept) ∧
      ∀ kept, store.Runs c (totalsStages a dimensions accumulators (some n)) docs kept →
        a.KeepsFirst n (shown.map resultRow) (kept.map resultRow) := by
  obtain ⟨sorted, hsorted, hproject⟩ := runs_append.1 hshown
  obtain ⟨groups, hgroups, horder⟩ := runs_append.1 hsorted
  obtain ⟨hperm, hordered⟩ := (runs_orderStages_none hgrouped).1 horder
  have hdistinct := haveGroups_of_runs_grouping ha hdimensions haccumulators hgroups
  rw [runs_single.1 hproject, List.map_map]
  refine ⟨⟨_, runs_append.2 ⟨_, runs_append.2 ⟨groups, hgroups,
    (runs_orderStages_some hlinear hgrouped hdistinct hperm hordered).2 rfl⟩, runs_single.2 rfl⟩⟩,
    fun kept hkept => ?_⟩
  obtain ⟨left, hleft, hproject⟩ := runs_append.1 hkept
  obtain ⟨groups', hgroups', horder⟩ := runs_append.1 hleft
  have hsame := perm_of_runs_grouping hgroups hgroups'
  obtain rfl := (runs_orderStages_some hlinear hgrouped
    (haveGroups_of_runs_grouping ha hdimensions haccumulators hgroups') (hperm.trans hsame)
    hordered).1 horder
  rw [runs_single.1 hproject, List.map_map]
  have hparent : a.parent ∘ GroupDoc.row = a.parent ∘ (resultRow ∘
      projected (resultShape (a.groupBy.map Path.label) (a.metrics.map Metric.label))) := by
    funext d
    refine List.map_congr_left fun path hpath => (resultRow_projected ha hapart d ?_).symm
    exact List.mem_append_left _ (List.mem_map_of_mem (List.dropLast_subset _ hpath))
  rw [hparent]
  exact a.keepsFirst_map _ n sorted

end Result
end Accumulation
end Listing.Document

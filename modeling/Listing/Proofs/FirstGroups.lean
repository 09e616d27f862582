/-
# The first groups of each parent

Where all values are in a linear order, so are the rows of totals: two rows that the order leaves
alike have the same groups. Within a parent the metrics decide first, so that rows in the order of
totals are in the order of their metrics, too.
-/
import Listing.Proofs.Semantics.ListedGroups

namespace Listing

theorem transCmp_comap {α β : Type} {cmp : β → β → Ordering} (hcmp : Std.TransCmp cmp)
    (f : α → β) : Std.TransCmp fun x y => cmp (f x) (f y) where
  eq_swap := Std.OrientedCmp.eq_swap
  isLE_trans := Std.TransCmp.isLE_trans

/-- The comparison of elements by the records that belong to them. -/
def Collation.compareOn {α κ : Type} (c : Collation) (keys : List (κ × Direction))
    (record : α → κ → Datum) (x y : α) : Ordering :=
  c.compareBy keys (record x) (record y)

namespace Collation.IsLinear

variable {c : Collation} {κ : Type}

/-- Records are put in order by any keys. -/
theorem transCmp_compareBy (hlinear : c.IsLinear) (keys : List (κ × Direction)) :
    Std.TransCmp (c.compareBy keys) := by
  induction keys with
  | nil => exact { eq_swap := rfl, isLE_trans := fun _ _ => rfl }
  | cons key keys ih =>
      have hfirst := transCmp_comap (hlinear.trans key.2) fun x : κ → Datum => x key.1
      exact inferInstanceAs (Std.TransCmp (compareLex
        (fun x y : κ → Datum => c.compare key.2 (x key.1) (y key.1)) (c.compareBy keys)))

theorem transCmp_compareOn {α : Type} (hlinear : c.IsLinear) (keys : List (κ × Direction))
    (record : α → κ → Datum) : Std.TransCmp (c.compareOn keys record) :=
  transCmp_comap (hlinear.transCmp_compareBy keys) record

/-- Records that are alike have the same values under all keys. -/
theorem eq_of_compareBy (hlinear : c.IsLinear) {keys : List (κ × Direction)} {x y : κ → Datum}
    (halike : c.compareBy keys x y = .eq) : ∀ key ∈ keys, x key.1 = y key.1 :=
  fun key hkey => hlinear.differ (c.compareBy_eq_eq.1 halike key hkey)

end Collation.IsLinear

namespace Aggregate

variable {a : Aggregate} {c : Collation}

/-- The order of totals has the parents, the metrics and the innermost group. -/
theorem exists_order_eq (hgrouped : a.groupBy ≠ []) :
    ∃ innermost, a.groupBy = a.groupBy.dropLast ++ [innermost] ∧
      a.order = a.groupBy.dropLast.map (fun path => (.group path, .ascending)) ++
        (a.metricOrder ++ [(.group innermost, .ascending)]) := by
  refine ⟨a.groupBy.getLast hgrouped, (List.dropLast_append_getLast hgrouped).symm, ?_⟩
  rw [order, List.getLast?_eq_some_getLast hgrouped, ← List.append_assoc]
  rfl

/-- Rows that are alike belong to the same group. -/
theorem groups_eq_of_order (hlinear : c.IsLinear) (hgrouped : a.groupBy ≠ []) {row row' : GroupRow}
    (halike : c.compareBy a.order row row' = .eq) :
    a.groupBy.map (fun path => row (.group path)) =
      a.groupBy.map fun path => row' (.group path) := by
  obtain ⟨innermost, hgroups, horder⟩ := exists_order_eq hgrouped
  refine List.map_congr_left fun path hpath => ?_
  refine hlinear.eq_of_compareBy halike (.group path, .ascending) ?_
  rw [hgroups, List.mem_append, List.mem_singleton] at hpath
  rw [horder, List.mem_append, List.mem_append, List.mem_singleton]
  rcases hpath with hparent | rfl
  · exact .inl (List.mem_map_of_mem hparent)
  · exact .inr (.inr rfl)

/-- Rows of one parent in the order of totals are in the order of their metrics. -/
theorem isLE_metricOrder (hlinear : c.IsLinear) (hgrouped : a.groupBy ≠ []) {row row' : GroupRow}
    (hparent : a.parent row = a.parent row') (hle : (c.compareBy a.order row row').isLE) :
    (c.compareBy a.metricOrder row row').isLE := by
  obtain ⟨innermost, _, horder⟩ := exists_order_eq hgrouped
  have hsame : c.compareBy (a.groupBy.dropLast.map fun path =>
      (GroupKey.group path, Direction.ascending)) row row' = .eq := by
    refine c.compareBy_eq_eq.2 fun key hkey => ?_
    obtain ⟨path, hpath, rfl⟩ := List.mem_map.1 hkey
    rw [List.map_inj_left.1 hparent path hpath]
    have := hlinear.trans .ascending
    exact Std.ReflCmp.compare_self
  rw [horder, c.compareBy_append, hsame, Ordering.eq_then, c.compareBy_append] at hle
  cases hmetrics : c.compareBy a.metricOrder row row' with
  | lt | eq => rfl
  | gt =>
      rw [hmetrics] at hle
      cases hle

/-- Where no two rows have the same metrics, these decide. -/
theorem isDecided_of_pairwise {shown : List GroupRow}
    (hdiffer : shown.Pairwise fun row row' => c.compareBy a.metricOrder row row' ≠ .eq) (n : Nat) :
    a.IsDecided c n shown := by
  intro parent row hrow row' hrow'
  have hclass := hdiffer.sublist (List.filter_sublist (p := (a.parent · = parent)))
  rw [← List.take_append_drop n (shown.filter (a.parent · = parent)),
    List.pairwise_append] at hclass
  exact hclass.2.2 row hrow row' hrow'

section Rows

variable {α : Type} {row : α → GroupRow} {n : Nat} {shown : List α}

/-- The first elements of each parent have the rows that should be kept. -/
theorem keepsFirst_map (a : Aggregate) (row : α → GroupRow) (n : Nat) (shown : List α) :
    a.KeepsFirst n (shown.map row)
      ((firstOfEach (a.parent ∘ row) n shown).map row) := by
  refine ⟨(firstOfEach_sublist _ n shown).map row, fun parent => ?_⟩
  rw [List.filter_map, List.filter_map, ← List.map_take]
  exact congrArg (List.map row) (filter_firstOfEach n parent shown)

/-- What is kept of a parent is one of its first elements. -/
theorem mem_take_of_keepsFirst {kept : List α}
    (hkept : a.KeepsFirst n (shown.map row) (kept.map row))
    (hrow : ∀ x ∈ shown, ∀ y ∈ shown, row x = row y → x = y) {y : α} (hshown : y ∈ shown)
    (hy : y ∈ kept) {parent : List Datum} (hparent : a.parent (row y) = parent) :
    y ∈ (shown.filter ((a.parent ∘ row) · = parent)).take n := by
  have hmem : row y ∈ (kept.map row).filter (a.parent · = parent) :=
    List.mem_filter.2 ⟨List.mem_map_of_mem hy, decide_eq_true hparent⟩
  rw [hkept.2 parent, List.filter_map, ← List.map_take] at hmem
  obtain ⟨x, hx, hsame⟩ := List.mem_map.1 hmem
  rwa [hrow x (List.mem_of_mem_filter (List.mem_of_mem_take hx)) y hshown hsame] at hx

/-- Where the metrics decide, the first elements of a parent come strictly before the others. -/
theorem lt_of_isDecided (hlinear : c.IsLinear) (hgrouped : a.groupBy ≠ [])
    (hshown : Sorted (c.compareOn a.order row) shown)
    (hdecided : a.IsDecided c n (shown.map row)) (parent : List Datum) :
    ∀ x ∈ (shown.filter ((a.parent ∘ row) · = parent)).take n,
      ∀ y ∈ (shown.filter ((a.parent ∘ row) · = parent)).drop n,
        c.compareOn a.metricOrder row x y = .lt := by
  intro x hx y hy
  have hclass : Sorted (c.compareOn a.order row)
      ((shown.filter ((a.parent ∘ row) · = parent)).take n ++
        (shown.filter ((a.parent ∘ row) · = parent)).drop n) := by
    rw [List.take_append_drop]
    exact hshown.sublist List.filter_sublist
  have hle := (List.pairwise_append.1 hclass).2.2 x hx y hy
  have hparent {z : α} (hz : z ∈ shown.filter ((a.parent ∘ row) · = parent)) :
      a.parent (row z) = parent := of_decide_eq_true (List.mem_filter.1 hz).2
  have hmetrics := isLE_metricOrder hlinear hgrouped ((hparent (List.mem_of_mem_take hx)).trans
    (hparent (List.mem_of_mem_drop hy)).symm) hle
  have hdiffer := hdecided parent (row x) (by
    rw [List.filter_map, ← List.map_take]
    exact List.mem_map_of_mem hx) (row y) (by
    rw [List.filter_map, ← List.map_drop]
    exact List.mem_map_of_mem hy)
  rw [Collation.compareOn]
  cases hcompare : c.compareBy a.metricOrder (row x) (row y) with
  | lt => rfl
  | eq => exact absurd hcompare hdiffer
  | gt =>
      rw [hcompare] at hmetrics
      cases hmetrics

end Rows
end Aggregate
end Listing

/-
# The keys of groups

A tree of totals names a group by the text of its value: a text by itself, and a missing value as
`null`. Under one key for each dimension there is room for one row. So the tree has a leaf for each
row, from which its metric can be read, exactly if the groups of different rows get different keys.

Where groups are texts or missing, this depends on one thing only. A missing value has the same key
as the text `null`; any two other values have different ones.
-/
import Listing.Proofs.ReadingByKey
import Listing.Proofs.TotalsTrees

namespace Listing.Totals

/-! ### The leaves of a tree -/

/-- What stands below so many levels of objects, with the keys that lead to it. -/
def leaves : Nat → Json → List (List String × Json)
  | 0, value => [([], value)]
  | depth + 1, .object entries =>
    entries.flatMap fun entry => (leaves depth entry.2).map fun leaf => (entry.1 :: leaf.1, leaf.2)
  | _ + 1, _ => []

section

variable {depth : Nat} {tree : Json}

/-- The leaves of a tree are what keys lead to, one for each level. -/
theorem mem_leaves_iff (htree : IsNested depth tree) {keys : List String} {value : Json} :
    (keys, value) ∈ leaves depth tree ↔ keys.length = depth ∧ tree.at? keys = some value := by
  induction depth generalizing tree keys with
  | zero =>
      rw [leaves, List.mem_singleton, Prod.mk.injEq, List.length_eq_zero_iff]
      refine and_congr_right fun hkeys => ?_
      rw [hkeys, Json.at?_nil, Option.some_inj, eq_comm]
  | succ depth ih =>
      obtain ⟨entries, rfl, hnodup, hinner⟩ := htree
      simp only [leaves, List.mem_flatMap, List.mem_map, Prod.exists, Prod.mk.injEq]
      constructor
      · rintro ⟨key, below, hentry, rest, _, hleaf, rfl, rfl⟩
        obtain ⟨hlength, hfound⟩ := (ih (hinner _ hentry)).1 hleaf
        rw [List.length_cons, hlength, Json.at?_object_cons,
          (Params.mem_iff_lookup hnodup).1 hentry]
        exact ⟨rfl, hfound⟩
      · rintro ⟨hlength, hfound⟩
        obtain ⟨key, rest, rfl⟩ := List.exists_cons_of_length_eq_add_one hlength
        rw [Json.at?_object_cons] at hfound
        obtain ⟨below, hbelow, hfound⟩ := Option.bind_eq_some_iff.1 hfound
        have hentry := (Params.mem_iff_lookup hnodup).2 hbelow
        exact ⟨key, below, hentry, rest, value,
          (ih (hinner _ hentry)).2 ⟨Nat.succ.inj hlength, hfound⟩, rfl, rfl⟩

/-- No two leaves are under the same keys. -/
theorem nodup_leaves (htree : IsNested depth tree) : ((leaves depth tree).map Prod.fst).Nodup := by
  induction depth generalizing tree with
  | zero => exact List.nodup_singleton []
  | succ depth ih =>
      obtain ⟨entries, rfl, hnodup, hinner⟩ := htree
      have hentries (entry : String × Json) :
          ((leaves depth entry.2).map fun leaf => (entry.1 :: leaf.1, leaf.2)).map Prod.fst =
            ((leaves depth entry.2).map Prod.fst).map (entry.1 :: ·) := by
        rw [List.map_map, List.map_map]
        rfl
      rw [leaves, List.map_flatMap]
      simp only [hentries]
      refine List.nodup_flatMap.2 ⟨fun entry hentry => ?_, ?_⟩
      · exact (ih (hinner entry hentry)).map fun _ _ heq => (List.cons.inj heq).2
      · refine (List.pairwise_map.1 hnodup).imp fun {first second} hne keys hfirst hsecond => ?_
        obtain ⟨_, _, rfl⟩ := List.mem_map.1 hfirst
        obtain ⟨_, _, heq⟩ := List.mem_map.1 hsecond
        exact hne (List.cons.inj heq).1.symm

end

/-! ### One leaf for each row -/

/-- Every row has a leaf of its own, from which its metric can be read, and there are no others. -/
structure KeepsGroups (value : Json) (dimensions : List String) (metric : String)
    (rows : List Row) : Prop where
  /-- There are as many leaves as rows. -/
  count : (leaves dimensions.length value).length = rows.length
  /-- The keys of its groups lead to the metric of a row. -/
  leaf : ∀ row ∈ rows, value.at? (groupKeys dimensions row) = some (metricValue row metric)
  /-- Different rows have different keys. -/
  apart : rows.Pairwise fun row row' => groupKeys dimensions row ≠ groupKeys dimensions row'

section

variable {dimensions : List String} {rows : List Row} {keys : List String}

/-- The last row with its keys is one of the rows, and it has them. -/
theorem mem_of_lastOf {row : Row} (hlast : lastOf dimensions rows keys = some row) :
    row ∈ rows ∧ groupKeys dimensions row = keys := by
  have hmem := List.mem_of_mem_getLast? (Option.mem_def.2 hlast)
  rw [List.mem_filter, beq_iff_eq] at hmem
  exact hmem

theorem exists_lastOf (dimensions : List String) {row : Row} (hrow : row ∈ rows) :
    ∃ last, lastOf dimensions rows (groupKeys dimensions row) = some last := by
  refine Option.isSome_iff_exists.1 (List.getLast?_isSome.2 ?_)
  exact List.ne_nil_of_mem (List.mem_filter.2 ⟨hrow, BEq.rfl⟩)

/-- The leaves of a tree are under the keys of its rows, if these are different. -/
theorem map_fst_leaves_perm (hdimensions : dimensions ≠ []) (metric : String)
    (hnodup : (rows.map (groupKeys dimensions)).Nodup) :
    ((leaves dimensions.length (.object (tree dimensions metric rows))).map Prod.fst).Perm
      (rows.map (groupKeys dimensions)) := by
  have htree := isNested_tree hdimensions metric rows
  refine (List.perm_ext_iff_of_nodup (nodup_leaves htree) hnodup).2 fun keys => ?_
  rw [List.mem_map, List.mem_map]
  constructor
  · rintro ⟨⟨keys, value⟩, hleaf, rfl⟩
    obtain ⟨hlength, hfound⟩ := (mem_leaves_iff htree).1 hleaf
    rw [at?_tree hdimensions metric rows hlength] at hfound
    obtain ⟨row, hlast, -⟩ := Option.map_eq_some_iff.1 hfound
    exact ⟨row, mem_of_lastOf hlast⟩
  · rintro ⟨row, hrow, rfl⟩
    obtain ⟨last, hlast⟩ := exists_lastOf dimensions hrow
    have hlength := length_groupKeys dimensions row
    refine ⟨(groupKeys dimensions row, metricValue last metric), ?_, rfl⟩
    rw [mem_leaves_iff htree, at?_tree hdimensions metric rows hlength, hlast]
    exact ⟨hlength, rfl⟩

/-- A tree keeps the groups of all rows exactly if these have different keys. -/
theorem keepsGroups_tree_iff (hdimensions : dimensions ≠ []) (metric : String) (rows : List Row) :
    KeepsGroups (.object (tree dimensions metric rows)) dimensions metric rows ↔
      (rows.map (groupKeys dimensions)).Nodup := by
  refine ⟨fun hkeeps => List.pairwise_map.2 hkeeps.apart, fun hnodup => ?_⟩
  refine ⟨?_, fun row hrow => ?_, List.pairwise_map.1 hnodup⟩
  · simpa using (map_fst_leaves_perm hdimensions metric hnodup).length_eq
  · obtain ⟨last, hlast⟩ := exists_lastOf dimensions hrow
    obtain ⟨hmem, hkeys⟩ := mem_of_lastOf hlast
    rw [at?_tree hdimensions metric rows (length_groupKeys dimensions row), hlast,
      List.inj_on_of_nodup_map hnodup hmem hrow hkeys]
    rfl

end

/-! ### Groups that are texts or missing -/

/-- The value of a group in a row; a missing one is null. -/
def groupValue (row : Row) (dimension : String) : Json := (row.lookup dimension).getD .null

/-- The values of the groups of a row, outermost group first. -/
def groupValues (dimensions : List String) (row : Row) : List Json :=
  dimensions.map (groupValue row)

/-- A text, or null. -/
inductive IsTextOrNull : Json → Prop
  | text (s : String) : IsTextOrNull (.string s)
  | null : IsTextOrNull .null

/-- A value with the text `null` in the place of null. -/
def nullAsText : Json → Json
  | .null => .string "null"
  | value => value

theorem groupKey_eq (row : Row) (dimension : String) :
    groupKey row dimension = (groupValue row dimension).text := by
  unfold groupKey groupValue
  cases row.lookup dimension <;> rfl

theorem groupKeys_eq (dimensions : List String) (row : Row) :
    groupKeys dimensions row = (groupValues dimensions row).map Json.text := by
  rw [groupKeys, groupValues, List.map_map]
  exact List.map_congr_left fun dimension _ => groupKey_eq row dimension

/-- Texts and null have the same key only if they are the same once null is read as a text. -/
theorem text_eq_iff {value value' : Json} (hvalue : IsTextOrNull value)
    (hvalue' : IsTextOrNull value') :
    value.text = value'.text ↔ nullAsText value = nullAsText value' := by
  have hnull : Json.null.render = "null" := by decide
  cases hvalue <;> cases hvalue' <;> simp [Json.text, nullAsText, hnull]

theorem map_text_eq_iff {values values' : List Json} (hvalues : ∀ v ∈ values, IsTextOrNull v)
    (hvalues' : ∀ v ∈ values', IsTextOrNull v) :
    values.map Json.text = values'.map Json.text ↔
      values.map nullAsText = values'.map nullAsText := by
  induction values generalizing values' with
  | nil => cases values' <;> simp
  | cons value values ih =>
      cases values' with
      | nil => simp
      | cons value' values' =>
          obtain ⟨hfirst, hrest⟩ := List.forall_mem_cons.1 hvalues
          obtain ⟨hfirst', hrest'⟩ := List.forall_mem_cons.1 hvalues'
          simp only [List.map_cons, List.cons.injEq]
          exact and_congr (text_eq_iff hfirst hfirst') (ih hrest hrest')

/-- Where groups are texts or missing, the tree of every metric keeps all of them exactly if the
rows have different groups even with the text `null` in the place of a missing value. -/
theorem shape_keepsGroups_iff {dimensions : List String} (hdimensions : dimensions ≠ [])
    {rows : List Row}
    (hvalues : ∀ row ∈ rows, ∀ value ∈ groupValues dimensions row, IsTextOrNull value)
    {metrics : List String} {metric : String} (hmetric : metric ∈ metrics) :
    (∃ value, (shape dimensions metrics rows).lookup (stem ++ metric) = some value ∧
      KeepsGroups value dimensions metric rows) ↔
        (rows.map fun row => (groupValues dimensions row).map nullAsText).Nodup := by
  have hentry : (shape dimensions metrics rows).lookup (stem ++ metric) =
      some (.object (tree dimensions metric rows)) := by
    have hgrouped : ofMetric dimensions rows metric = .object (tree dimensions metric rows) := by
      unfold ofMetric
      rw [if_neg (by simpa using hdimensions)]
    rw [← hgrouped]
    exact lookup_foldl_insertEntry stem_injective (ofMetric dimensions rows) hmetric []
  have hkeys : (rows.map (groupKeys dimensions)).Nodup ↔
      (rows.map fun row => (groupValues dimensions row).map nullAsText).Nodup := by
    simp only [List.Nodup, List.pairwise_map]
    refine List.Pairwise.iff_of_mem fun {row row'} hrow hrow' => not_congr ?_
    rw [groupKeys_eq, groupKeys_eq, map_text_eq_iff (hvalues row hrow) (hvalues row' hrow')]
  rw [hentry, ← hkeys, ← keepsGroups_tree_iff hdimensions metric rows]
  simp

/-- Chairs by maker and wood. Of some the maker is not known, of others the wood. -/
def chairs : List Row := [
  [("maker", .null), ("wood", .string "Oak"), ("count", .int 4)],
  [("maker", .string "null"), ("wood", .string "Pine"), ("count", .int 2)],
  [("maker", .string "Ann"), ("wood", .null), ("count", .int 1)]]

/-- Makers that are missing and makers called `null` share a level, but no leaf. -/
theorem shape_keepsGroups_chairs :
    ["maker", "wood"] ≠ [] ∧
      (∀ row ∈ chairs, ∀ value ∈ groupValues ["maker", "wood"] row, IsTextOrNull value) ∧
      "count" ∈ ["count"] ∧
      shape ["maker", "wood"] ["count"] chairs = [("total_count", .object [
        ("null", .object [("Oak", .int 4), ("Pine", .int 2)]),
        ("Ann", .object [("null", .int 1)])])] ∧
      ∃ value, (shape ["maker", "wood"] ["count"] chairs).lookup (stem ++ "count") = some value ∧
        KeepsGroups value ["maker", "wood"] "count" chairs := by
  have hdimensions : ["maker", "wood"] ≠ [] := by decide
  have hvalues : ∀ row ∈ chairs, ∀ value ∈ groupValues ["maker", "wood"] row,
      IsTextOrNull value := by
    simp [chairs, groupValues, groupValue, List.lookup_cons, IsTextOrNull.null, IsTextOrNull.text]
  have hmetric : "count" ∈ ["count"] := by decide
  refine ⟨hdimensions, hvalues, hmetric, rfl, ?_⟩
  refine (shape_keepsGroups_iff hdimensions hvalues hmetric).2 ?_
  simp [chairs, groupValues, groupValue, List.lookup_cons, nullAsText]

/-- Chairs of which the maker is not known, and chairs of a maker called `null`. -/
def unnamed : List Row := [
  [("maker", .null), ("count", .int 4)], [("maker", .string "null"), ("count", .int 2)]]

/-- A missing group and the group `null` are different, but they have the same key: of the two, the
later one is left. -/
theorem shape_overwrites_missing :
    (∀ row ∈ unnamed, ∀ value ∈ groupValues ["maker"] row, IsTextOrNull value) ∧
      (unnamed.map (groupValues ["maker"])).Nodup ∧
      shape ["maker"] ["count"] unnamed = [("total_count", .object [("null", .int 2)])] ∧
      ¬ KeepsGroups (.object [("null", .int 2)]) ["maker"] "count" unnamed := by
  refine ⟨?_, ?_, rfl, fun hkeeps => ?_⟩
  · simp [unnamed, groupValues, groupValue, IsTextOrNull.null, IsTextOrNull.text]
  · simp [unnamed, groupValues, groupValue]
  · exact absurd hkeeps.count (by decide)

end Listing.Totals

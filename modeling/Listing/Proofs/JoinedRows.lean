/-
# Rows that joins make of a row

Joins extend what was joined so far and never change it. A join to at most one row extends it in
exactly one way, so that a select over such joins finds each row of its own table at most once, and
the output of its page and of its count can be read off the table.

That a key finds at most one row rests on the laws of equality.
-/
import Listing.Proofs.ConditionScope
import Mathlib.Data.List.Perm.Basic

namespace Listing.Sql

/-- A join that finds exactly one row, which may be the row of nulls. -/
def Join.IsSingle (j : Join) (engine : Engine) (db : Database) : Prop :=
  ∀ scope, ∃ r, j.expand engine db scope = [scope ++ [(j.aliasName, r)]]

variable {engine : Engine} {db : Database}

namespace Engine

theorem sameKey_symm (hlawful : engine.IsLawful) {columns : List String} {r r' : Listing.Record}
    (hsame : engine.sameKey columns r r' = true) : engine.sameKey columns r' r = true := by
  rw [sameKey, List.all_eq_true] at hsame ⊢
  intro column hcolumn
  exact hlawful.symm _ _ (hsame column hcolumn)

/-- Rows with the same unique columns are the same row. -/
theorem IsUnique.eq_of_sameKey (hlawful : engine.IsLawful) {columns : List String}
    {rows : List Listing.Record} (hunique : engine.IsUnique columns rows) {r r' : Listing.Record}
    (hr : r ∈ rows) (hr' : r' ∈ rows) (hsame : engine.sameKey columns r r' = true) : r = r' := by
  refine List.Pairwise.forall_of_forall_of_flip (R := fun r r' =>
    engine.sameKey columns r r' = true → r = r') (fun _ _ _ => rfl) ?_ ?_ hr hr' hsame
  · exact hunique.imp fun hdiffer hsame => by simp [hdiffer] at hsame
  · refine hunique.imp fun hdiffer hsame => ?_
    simp [sameKey_symm hlawful hsame] at hdiffer

/-- A row has the same key as itself. -/
theorem IsKey.sameKey_self (hlawful : engine.IsLawful) {columns : List String}
    {rows : List Listing.Record} (hkey : engine.IsKey columns rows) {r : Listing.Record}
    (hr : r ∈ rows) : engine.sameKey columns r r = true :=
  List.all_eq_true.2 fun column hcolumn => hlawful.refl _ (hkey.present r hr column hcolumn)

end Engine

/-- A join by a unique column finds exactly one row. -/
theorem Join.isSingle_of_isUnique (hlawful : engine.IsLawful) {j : Join}
    (hunique : engine.IsUnique [j.foreignKey] (db j.table)) : j.IsSingle engine db := by
  intro scope
  unfold Join.expand
  split
  · exact ⟨Record.null, rfl⟩
  · rename_i hmatching
    have hdiffer : (j.matching engine db scope).Pairwise fun r r' =>
        engine.sameKey [j.foreignKey] r r' = false := hunique.filter _
    have hequal : ∀ r ∈ j.matching engine db scope,
        engine.equal (r j.foreignKey) (scope.row j.parent j.localKey) = true :=
      fun r hr => (List.mem_filter.1 hr).2
    cases hrows : j.matching engine db scope with
    | nil => exact absurd hrows hmatching
    | cons r rest =>
        cases rest with
        | nil => exact ⟨r, rfl⟩
        | cons r' rest =>
            rw [hrows] at hdiffer hequal
            have hr := hequal r (by simp)
            have hr' := hlawful.symm _ _ (hequal r' (by simp))
            have hsame := hlawful.trans _ _ _ hr hr'
            simp [Engine.sameKey, hsame] at hdiffer

/-- What joins make of a row begins with what was joined so far. -/
theorem mem_expandAll {joins : List Join} {scope found : Scope}
    (hfound : found ∈ expandAll engine db joins scope) :
    ∃ more, found = scope ++ more ∧ more.names = joins.map (·.aliasName) := by
  induction joins generalizing scope with
  | nil => exact ⟨[], by simpa [expandAll] using hfound, rfl⟩
  | cons j joins ih =>
      rw [expandAll, List.mem_flatMap] at hfound
      obtain ⟨next, hnext, hfound⟩ := hfound
      have hone : ∃ r, next = scope ++ [(j.aliasName, r)] := by
        unfold Join.expand at hnext
        split at hnext
        · exact ⟨Record.null, List.mem_singleton.1 hnext⟩
        · obtain ⟨r, _, rfl⟩ := List.mem_map.1 hnext
          exact ⟨r, rfl⟩
      obtain ⟨r, rfl⟩ := hone
      obtain ⟨more, rfl, hnames⟩ := ih hfound
      refine ⟨(j.aliasName, r) :: more, by simp, ?_⟩
      rw [List.map_cons, ← hnames]
      rfl

/-- Joins to at most one row make one row of a row. -/
theorem expandAll_of_isSingle {joins : List Join} (hjoins : ∀ j ∈ joins, j.IsSingle engine db)
    (scope : Scope) : ∃ found, expandAll engine db joins scope = [found] := by
  induction joins generalizing scope with
  | nil => exact ⟨scope, rfl⟩
  | cons j joins ih =>
      obtain ⟨r, hr⟩ := hjoins j List.mem_cons_self scope
      obtain ⟨found, hfound⟩ := ih (fun j' hj' => hjoins j' (List.mem_cons_of_mem j hj'))
        (scope ++ [(j.aliasName, r)])
      exact ⟨found, by rw [expandAll, hr, List.flatMap_singleton, hfound]⟩

theorem expandAll_append (joins joins' : List Join) (scope : Scope) :
    expandAll engine db (joins ++ joins') scope =
      (expandAll engine db joins scope).flatMap (expandAll engine db joins') := by
  induction joins generalizing scope with
  | nil => simp [expandAll]
  | cons j joins ih =>
      rw [List.cons_append, expandAll, expandAll, List.flatMap_assoc]
      exact List.flatMap_congr fun next _ => ih next

/-- The row of the table that joins start from. -/
theorem row_of_mem_expandAll {table : String} {r : Listing.Record} {joins : List Join}
    {found : Scope} (hfound : found ∈ expandAll engine db joins [(table, r)]) :
    found.row table = r := by
  obtain ⟨more, rfl, _⟩ := mem_expandAll hfound
  rw [Scope.row_append more (by simp [Scope.names])]
  simp [Scope.row]

namespace Select

variable {s : Select} {selects : Listing.Record → Bool}

/-- A select finds the rows of its table that it selects, each once, if its joins find at most one
row and its restriction looks only at the row of the table. -/
theorem map_row_found (hjoins : ∀ j ∈ s.joins, j.IsSingle engine db)
    (hkeeps : ∀ r ∈ db s.table, ∀ scope ∈ expandAll engine db s.joins [(s.table, r)],
      s.restriction.keeps engine db scope = selects r) :
    (s.found engine db).map (·.row s.table) = (db s.table).filter selects := by
  unfold found joined
  revert hkeeps
  induction db s.table with
  | nil => intro _; rfl
  | cons r rows ih =>
      intro hkeeps
      obtain ⟨scope, hscope⟩ := expandAll_of_isSingle hjoins [(s.table, r)]
      have hmem : scope ∈ expandAll engine db s.joins [(s.table, r)] := by simp [hscope]
      have hrest := ih fun r' hr' => hkeeps r' (List.mem_cons_of_mem r hr')
      rw [List.flatMap_cons, hscope, List.singleton_append, List.filter_cons, List.filter_cons,
        hkeeps r List.mem_cons_self scope hmem]
      split
      · rw [List.map_cons, hrest, row_of_mem_expandAll hmem]
      · exact hrest

/-- A select of the rows of its table returns what it finds, in any arrangement. -/
theorem returns_rows_iff (hresolves : s.Resolves) (hcolumns : s.columns = [.allOf s.table])
    (hgroupBy : s.groupBy = []) (hlimit : s.limit = none) (hoffset : s.offset = none)
    (hrows : (s.found engine db).map (·.row s.table) = (db s.table).filter selects)
    (rows : List (List Output)) :
    s.Returns engine db rows ↔
      s.Distinct ∧ rows.Perm (((db s.table).filter selects).map fun r => [.record r]) := by
  have hgroups : s.groups engine (s.found engine db) =
      (s.found engine db).map fun scope => [scope] := by
    simp [groups, hgroupBy, hcolumns, Projection.isAggregate]
  have hcut : ∀ groups : List (List Scope),
      s.cut (groups.map (s.output engine)) = groups.map (s.output engine) := by
    simp [cut, hlimit, hoffset]
  have houtput : (s.groups engine (s.found engine db)).map (s.output engine) =
      ((db s.table).filter selects).map fun r => [.record r] := by
    rw [hgroups, ← hrows, List.map_map, List.map_map]
    apply List.map_congr_left
    intro scope _
    simp [output, hcolumns, Projection.output]
  have hperm := congrFun (congrFun (List.eq_map_comp_perm (s.output engine)) rows)
    (s.groups engine (s.found engine db))
  rw [← houtput]
  constructor
  · rintro ⟨hdistinct, _, arranged, harranged, rfl⟩
    rw [hcut]
    exact ⟨hdistinct, harranged.map _⟩
  · rintro ⟨hdistinct, hrows⟩
    obtain ⟨arranged, hmap, harranged⟩ := hperm.symm.mp hrows
    exact ⟨hdistinct, hresolves, arranged, harranged, by rw [hcut, hmap]⟩

/-- A select of aggregates without groups returns one row, computed over all that it finds. -/
theorem returns_aggregates_iff (hresolves : s.Resolves)
    (haggregates : s.columns.any Projection.isAggregate = true) (hgroupBy : s.groupBy = [])
    (hlimit : s.limit = none) (hoffset : s.offset = none) (rows : List (List Output)) :
    s.Returns engine db rows ↔ s.Distinct ∧ rows = [s.output engine (s.found engine db)] := by
  have hgroups : s.groups engine (s.found engine db) = [s.found engine db] := by
    simp [groups, hgroupBy, haggregates]
  have hcut (rows : List (List Output)) : s.cut rows = rows := by
    simp [cut, hlimit, hoffset]
  constructor
  · rintro ⟨hdistinct, _, arranged, harranged, rfl⟩
    rw [hgroups, List.perm_singleton] at harranged
    exact ⟨hdistinct, by rw [hcut, harranged, List.map_singleton]⟩
  · rintro ⟨hdistinct, rfl⟩
    exact ⟨hdistinct, hresolves, _, by rw [hgroups], by rw [hcut, List.map_singleton]⟩

/-- A select of the number of rows returns one row with the number of rows it finds. -/
theorem returns_count_iff {label : String} (hresolves : s.Resolves)
    (hcolumns : s.columns = [.named .countRows label]) (hgroupBy : s.groupBy = [])
    (hlimit : s.limit = none) (hoffset : s.offset = none)
    (hrows : (s.found engine db).map (·.row s.table) = (db s.table).filter selects)
    (rows : List (List Output)) :
    s.Returns engine db rows ↔
      s.Distinct ∧ rows = [[.value label (.number ((db s.table).filter selects).length)]] := by
  have haggregates : s.columns.any Projection.isAggregate = true := by
    simp [hcolumns, Projection.isAggregate, Expr.isAggregate]
  have houtput : s.output engine (s.found engine db) =
      [.value label (.number ((db s.table).filter selects).length)] := by
    simp [output, hcolumns, Projection.output, Engine.eval, ← hrows]
  rw [returns_aggregates_iff hresolves haggregates hgroupBy hlimit hoffset, houtput]

end Select
end Listing.Sql

/-
# The order of loads

The relations of a page are loaded one after the other. A load reads one column of each row, the
local key of its relation, and writes one, the name of its relation. What is put under a name should
be what the row as the page gave it leads to, and no relation should notice that others are loaded
as well.

Names of relations are different from each other and from names of attributes, but a local key is a
column and may be any name. Where a relation has the name of the local key of another, the other one
is looked up by what was just put there. Where none has, loads may come in any order.
-/
import Listing.Proofs.EagerLoading
import Listing.Proofs.SelectedRelations
import Listing.Proofs.TotalsCount

namespace Listing.Sql

/-- Run loads on the rows of a page, one after the other. -/
def runAll (send : Connection Id) (loads : List EagerLoad) (page : List Row) :
    ExceptT DatabaseError Id (List Row) :=
  loads.foldlM (fun rows load => load.run send rows) page

/-- The loads of a request run after its other statements. -/
theorem Query.execute_eq_runAll (q : Query) (send : Connection Id) : q.execute send = (do
    let page ← send.rows (.select q.page)
    let counted ← q.count.mapM send.count
    let totals ← q.totals.mapM fun t => do return (t, ← send.totals t)
    let rows ← runAll send q.eager page
    return {
      results := rows.map .object
      total := counted.or (totals.bind fun (t, rows) => totalOf t rows)
      totals := match totals with
        | some (t, rows) => Totals.shape t.dimensions t.metrics rows
        | none => [] }) := rfl

/-- Loads do not disturb each other on a page. They all succeed if each of them does by itself; then
every row holds, under the name of a relation, what the load of this relation alone puts there, and
other columns are as they were. -/
structure Independent (send : Connection Id) (loads : List EagerLoad) (page : List Row) :
    Prop where
  succeeds : (∃ rows, runAll send loads page = pure rows) ↔
    ∀ load ∈ loads, ∃ alone, load.run send page = pure alone
  values : ∀ rows, runAll send loads page = pure rows →
    ∀ load ∈ loads, ∀ alone, load.run send page = pure alone →
      rows.map (·.lookup load.relation) = alone.map (·.lookup load.relation)
  columns : ∀ rows, runAll send loads page = pure rows →
    ∀ column, column ∉ loads.map (·.relation) →
      rows.map (·.lookup column) = page.map (·.lookup column)

/-- Both loadings fail, or both give the same rows, up to the order of columns. -/
def SameRows (x y : ExceptT DatabaseError Id (List Row)) : Prop :=
  ((∃ rows, x = pure rows) ↔ ∃ rows, y = pure rows) ∧
    ∀ rows rows', x = pure rows → y = pure rows' →
      ∀ column, rows.map (·.lookup column) = rows'.map (·.lookup column)

/-- No relation that is loaded has the name of the local key of another one. -/
def KeysApart (loads : List EagerLoad) : Prop :=
  ∀ load ∈ loads, ∀ other ∈ loads, other.relation = load.localKey → other = load

/-- What is a function of something that elements of two lists share is the same for both lists. -/
theorem map_congr_of_map_eq {α β γ : Type} {f : α → β} {g : α → γ}
    (hshared : ∀ x y, f x = f y → g x = g y) {xs ys : List α} (hmap : xs.map f = ys.map f) :
    xs.map g = ys.map g := by
  rw [← List.forall₂_eq_eq_eq, List.forall₂_map_left_iff, List.forall₂_map_right_iff] at hmap ⊢
  exact hmap.imp hshared

/-- The distinct keys of rows depend on their values in the column only. -/
theorem distinctKeys_congr {column : String} {rows rows' : List Row}
    (hkeys : rows.map (·.lookup column) = rows'.map (·.lookup column)) :
    distinctKeys column rows = distinctKeys column rows' := by
  have hkeyed (rows : List Row) : keyed column rows =
      (rows.map (·.lookup column)).filterMap fun key? => do
        let value ← key?
        return (← relationKey? value, value) := by
    rw [List.filterMap_map]
    rfl
  have hsame : keyed column rows = keyed column rows' := by rw [hkeyed, hkeyed, hkeys]
  unfold keyed at hsame
  dsimp only [distinctKeys]
  rw [hsame]

namespace EagerLoad

variable (load : EagerLoad) (send : Connection Id)

/-- What a load finds for each row of a page. -/
def found (page : List Row) : ExceptT DatabaseError Id (List (List Row)) :=
  match load.strategy with
  | .batched => do
    let loaded ← send.rowsOf (load.batchStatement? page)
    return page.map (load.relatedTo loaded)
  | .perRow => page.mapM fun row => send.rowsOf (load.statementFor? row)

/-- A load puts what it found for each row into the row. -/
theorem run_eq_found (page : List Row) : load.run send page = (do
    return List.zipWith load.attach (← load.found send page) page) := by
  unfold run found
  cases load.strategy with
  | batched =>
      simp only [bind_assoc, pure_bind]
      refine bind_congr fun loaded => congrArg pure ?_
      rw [List.zipWith_map_left, List.zipWith_self]
  | perRow =>
      induction page with
      | nil => rfl
      | cons row page ih =>
          simp only [List.mapM_cons, ih, bind_assoc, pure_bind, List.zipWith_cons_cons]

variable {load send} {page page' rows : List Row} {found : List (List Row)}

/-- What is found depends on the local keys of the page only. -/
theorem found_congr
    (hkeys : page.map (·.lookup load.localKey) = page'.map (·.lookup load.localKey)) :
    load.found send page = load.found send page' := by
  have hbatch : load.batchStatement? page = load.batchStatement? page' := by
    rw [batchStatement?, batchStatement?, distinctKeys_congr hkeys]
  have hrelated (loaded : List Row) :
      page.map (load.relatedTo loaded) = page'.map (load.relatedTo loaded) :=
    map_congr_of_map_eq (fun row row' hkey => by rw [relatedTo, rowKey?, hkey]; rfl) hkeys
  have hstatements : page.map load.statementFor? = page'.map load.statementFor? :=
    map_congr_of_map_eq (fun row row' hkey => by rw [statementFor?, hkey]; rfl) hkeys
  have hsent (rows : List Row) : rows.mapM (fun row => send.rowsOf (load.statementFor? row)) =
      (rows.map load.statementFor?).mapM send.rowsOf := by
    rw [List.mapM_map]
    rfl
  unfold EagerLoad.found
  cases load.strategy with
  | batched => simp only [hbatch, hrelated]
  | perRow => simp only [hsent, hstatements]

/-- A load that succeeds finds something, or nothing, for each row. -/
theorem length_found (hfound : load.found send page = pure found) :
    found.length = page.length := by
  unfold EagerLoad.found at hfound
  cases hstrategy : load.strategy with
  | batched =>
      rw [hstrategy] at hfound
      obtain ⟨loaded, _, hpure⟩ := bind_eq_pure.1 hfound
      cases hpure
      rw [List.length_map]
  | perRow =>
      rw [hstrategy] at hfound
      dsimp only at hfound
      clear hstrategy
      induction page generalizing found with
      | nil =>
          cases hfound
          rfl
      | cons row page ih =>
          rw [List.mapM_cons] at hfound
          obtain ⟨first, _, hrest⟩ := bind_eq_pure.1 hfound
          obtain ⟨others, hothers, hpure⟩ := bind_eq_pure.1 hrest
          cases hpure
          rw [List.length_cons, List.length_cons, ih hothers]

/-- What a load that succeeds puts where: what it found under the name of its relation, and nothing
into other columns. -/
theorem run_eq_pure (hrun : load.run send page = pure rows) :
    ∃ found, load.found send page = pure found ∧
      rows.map (·.lookup load.relation) = found.map (fun related => some (load.attached related)) ∧
      ∀ column, column ≠ load.relation →
        rows.map (·.lookup column) = page.map (·.lookup column) := by
  rw [run_eq_found] at hrun
  obtain ⟨found, hfound, hpure⟩ := bind_eq_pure.1 hrun
  cases hpure
  have hlength := length_found hfound
  refine ⟨found, hfound, ?_, fun column hcolumn => ?_⟩
  · refine List.ext_getElem (by simp [hlength]) fun i _ _ => ?_
    simp [attach, lookup_insertEntry_self]
  · refine List.ext_getElem (by simp [hlength]) fun i _ _ => ?_
    simp [attach, lookup_insertEntry_ne hcolumn]

/-- A load succeeds exactly if it finds what it looks up. -/
theorem exists_run_iff : (∃ rows, load.run send page = pure rows) ↔
    ∃ found, load.found send page = pure found := by
  rw [run_eq_found]
  constructor
  · rintro ⟨rows, hrun⟩
    obtain ⟨found, hfound, _⟩ := bind_eq_pure.1 hrun
    exact ⟨found, hfound⟩
  · rintro ⟨found, hfound⟩
    exact ⟨_, bind_eq_pure.2 ⟨found, hfound, rfl⟩⟩

/-- A load does the same for pages with the same local keys. -/
theorem run_congr
    (hkeys : page.map (·.lookup load.localKey) = page'.map (·.lookup load.localKey)) :
    ((∃ rows, load.run send page = pure rows) ↔ ∃ rows, load.run send page' = pure rows) ∧
      ∀ rows rows', load.run send page = pure rows → load.run send page' = pure rows' →
        rows.map (·.lookup load.relation) = rows'.map (·.lookup load.relation) := by
  have hfound : load.found send page = load.found send page' := found_congr hkeys
  refine ⟨by rw [exists_run_iff, exists_run_iff, hfound], fun rows rows' hrun hrun' => ?_⟩
  obtain ⟨found, hpage, hvalues, -⟩ := run_eq_pure hrun
  obtain ⟨found', hpage', hvalues', -⟩ := run_eq_pure hrun'
  rw [hfound, hpage'] at hpage
  cases hpage
  rw [hvalues, hvalues']

end EagerLoad

section Sufficient

variable {send : Connection Id} {load : EagerLoad} {loads order : List EagerLoad}
  {page : List Row}

theorem runAll_cons : runAll send (load :: loads) page =
    load.run send page >>= fun rows => runAll send loads rows := List.foldlM_cons

/-- A load goes before others whose local keys it does not write. -/
theorem independent_cons (hnew : load.relation ∉ loads.map (·.relation))
    (hapart : ∀ other ∈ loads, load.relation ≠ other.localKey)
    (hrest : ∀ page, Independent send loads page) : Independent send (load :: loads) page := by
  -- The other loads do on the rows of the first one what they do on the page.
  have hothers : ∀ rows, load.run send page = pure rows → ∀ other ∈ loads,
      rows.map (·.lookup other.localKey) = page.map (·.lookup other.localKey) := by
    intro rows hrun other hother
    obtain ⟨_, _, _, hcolumns⟩ := EagerLoad.run_eq_pure hrun
    exact hcolumns _ (hapart other hother).symm
  constructor
  · rw [runAll_cons]
    constructor
    · rintro ⟨final, hfinal⟩
      obtain ⟨rows, hrun, hruns⟩ := bind_eq_pure.1 hfinal
      refine List.forall_mem_cons.2 ⟨⟨rows, hrun⟩, fun other hother => ?_⟩
      exact (EagerLoad.run_congr (hothers rows hrun other hother)).1.1
        ((hrest rows).succeeds.1 ⟨final, hruns⟩ other hother)
    · intro halone
      obtain ⟨⟨rows, hrun⟩, hall⟩ := List.forall_mem_cons.1 halone
      obtain ⟨final, hfinal⟩ := (hrest rows).succeeds.2 fun other hother =>
        (EagerLoad.run_congr (hothers rows hrun other hother)).1.2 (hall other hother)
      exact ⟨final, bind_eq_pure.2 ⟨rows, hrun, hfinal⟩⟩
  · intro final hfinal
    rw [runAll_cons] at hfinal
    obtain ⟨rows, hrun, hruns⟩ := bind_eq_pure.1 hfinal
    refine List.forall_mem_cons.2 ⟨fun alone halone => ?_, fun other hother alone halone => ?_⟩
    · rw [hrun] at halone
      cases halone
      exact (hrest rows).columns final hruns _ hnew
    · have hkeys := hothers rows hrun other hother
      obtain ⟨rows', hrun'⟩ := (EagerLoad.run_congr hkeys).1.2 ⟨alone, halone⟩
      rw [(hrest rows).values final hruns other hother rows' hrun']
      exact (EagerLoad.run_congr hkeys).2 rows' alone hrun' halone
  · intro final hfinal column hcolumn
    rw [runAll_cons] at hfinal
    obtain ⟨rows, hrun, hruns⟩ := bind_eq_pure.1 hfinal
    rw [List.map_cons, List.mem_cons, not_or] at hcolumn
    obtain ⟨_, _, _, hcolumns⟩ := EagerLoad.run_eq_pure hrun
    rw [(hrest rows).columns final hruns column hcolumn.2, hcolumns column hcolumn.1]

/-- Loads of different relations whose keys are apart do not disturb each other. -/
theorem independent_of_keysApart (hnames : (loads.map (·.relation)).Nodup)
    (hapart : KeysApart loads) (page : List Row) : Independent send loads page := by
  induction loads generalizing page with
  | nil => exact ⟨by simp [runAll], by simp, fun rows hrows column _ => by cases hrows; rfl⟩
  | cons load loads ih =>
      obtain ⟨hnew, hrest⟩ := List.nodup_cons.1 hnames
      refine independent_cons hnew (fun other hother heq => hnew ?_) fun page => ih hrest ?_ page
      · have hsame := hapart other (List.mem_cons_of_mem _ hother) load List.mem_cons_self heq
        exact List.mem_map.2 ⟨other, hother, congrArg _ hsame.symm⟩
      · exact fun first hfirst other hother =>
          hapart first (List.mem_cons_of_mem _ hfirst) other (List.mem_cons_of_mem _ hother)

/-- Independent loads do the same in every order. -/
theorem sameRows_of_perm (hperm : order.Perm loads) (horder : Independent send order page)
    (hloads : Independent send loads page) :
    SameRows (runAll send order page) (runAll send loads page) := by
  refine ⟨?_, fun rows rows' hrows hrows' column => ?_⟩
  · rw [horder.succeeds, hloads.succeeds]
    simp only [hperm.mem_iff]
  · by_cases hcolumn : column ∈ loads.map (·.relation)
    · obtain ⟨load, hload, rfl⟩ := List.mem_map.1 hcolumn
      obtain ⟨alone, halone⟩ := hloads.succeeds.1 ⟨rows', hrows'⟩ load hload
      rw [hloads.values rows' hrows' load hload alone halone,
        horder.values rows hrows load (hperm.mem_iff.2 hload) alone halone]
    · have hnotin : column ∉ order.map (·.relation) := (hperm.map _).mem_iff.not.2 hcolumn
      rw [hloads.columns rows' hrows' column hcolumn, horder.columns rows hrows column hnotin]

end Sufficient

namespace KeyEquality

theorem eq_of_plain {x y : Scalar} (hequal : plain.equal x y = true) : x = y := by
  cases x <;> cases y <;> simp_all [plain]

/-- On a page of one row the normal form follows the plain equality. -/
theorem respects_plain_single (column : String) (row : Row) : plain.Respects column [row] where
  same form key key' hkey hkey' value := by
    obtain ⟨_, hrow, hlookup, -⟩ := mem_keyed.1 hkey
    obtain ⟨_, hrow', hlookup', -⟩ := mem_keyed.1 hkey'
    rw [List.mem_singleton.1 hrow] at hlookup
    rw [List.mem_singleton.1 hrow', hlookup, Option.some.injEq] at hlookup'
    rw [hlookup']
  normal form key hkey value hequal := by
    obtain ⟨_, _, _, hform⟩ := mem_keyed.1 hkey
    rw [← hform, relationKey?, relationKey?, eq_of_plain hequal]

end KeyEquality

namespace EagerLoad

variable (table : List Record) (row : Row)

/-- A row with the rows of a table that are related to it. -/
def step (row : Row) (load : EagerLoad) : Row :=
  load.attach (load.related KeyEquality.plain table row) row

/-- In both ways, a single row gets what is related to it. -/
theorem run_single (load : EagerLoad) :
    load.run (KeyEquality.plain.connection table) [row] = pure [step table row load] := by
  have hserves := KeyEquality.plain.serves_connection load table
  cases hstrategy : load.strategy with
  | batched =>
      obtain ⟨records, hanswers, hrun⟩ := run_batched hserves [row]
      rw [← hstrategy] at hrun
      refine hrun.trans (congrArg pure ?_)
      rw [List.map_singleton, relatedTo_eq_related (KeyEquality.respects_plain_single _ row)
        hanswers List.mem_cons_self]
      rfl
  | perRow =>
      have hrun := run_perRow hserves [row]
      rw [← hstrategy] at hrun
      exact hrun

theorem runAll_single (loads : List EagerLoad) :
    runAll (KeyEquality.plain.connection table) loads [row] =
      pure [loads.foldl (step table) row] := by
  induction loads generalizing row with
  | nil => rfl
  | cons load loads ih =>
      rw [runAll_cons, run_single, pure_bind, ih]
      rfl

variable {table row}

/-- Loads write under the names of their relations only. -/
theorem lookup_foldl_step {loads : List EagerLoad} {column : String}
    (hcolumn : column ∉ loads.map (·.relation)) :
    (loads.foldl (step table) row).lookup column = row.lookup column := by
  induction loads generalizing row with
  | nil => rfl
  | cons load loads ih =>
      rw [List.map_cons, List.mem_cons, not_or] at hcolumn
      rw [List.foldl_cons, ih hcolumn.2, step, attach, lookup_insertEntry_ne hcolumn.1]

/-- What a load puts into a row is still there after loads of other relations. -/
theorem lookup_foldl_step_self {load : EagerLoad} {loads : List EagerLoad}
    (hnew : load.relation ∉ loads.map (·.relation)) :
    ((load :: loads).foldl (step table) row).lookup load.relation =
      some (load.attached (load.related KeyEquality.plain table row)) := by
  rw [List.foldl_cons, lookup_foldl_step hnew, step, attach, lookup_insertEntry_self]

/-- Nothing is related to a row by what another load put there. -/
theorem related_of_attached {load other : EagerLoad} {related : List Row} (value : Json)
    (hkey : row.lookup load.localKey = some (other.attached related)) :
    load.related KeyEquality.plain [single load.foreignKey value] row = [] := by
  have hnone (key : Json) (hother : ∀ value, KeyEquality.plain.equal (Scalar.ofJson key)
      (Scalar.ofJson value) = false) :
      (List.filter (KeyEquality.plain.hasKey load.foreignKey (Scalar.ofJson key))
        [single load.foreignKey value]).map Record.toRow = [] := by
    simp [hasKey_single, hother]
  rw [EagerLoad.related, hkey]
  unfold attached
  cases other.many with
  | true => exact hnone _ fun _ => rfl
  | false =>
      cases related with
      | nil => rfl
      | cons first others => exact hnone _ fun _ => rfl

/-- A single record is related to a row with its key. -/
theorem related_single (load : EagerLoad) :
    load.related KeyEquality.plain [single load.foreignKey (.int 1)] [(load.localKey, .int 1)] =
      [(single load.foreignKey (.int 1)).toRow] := by
  have hequal : KeyEquality.plain.equal (Scalar.ofJson (.int 1)) (Scalar.ofJson (.int 1)) = true :=
    by decide
  simp [EagerLoad.related, hasKey_single, hequal]

/-- Loads whose keys are not apart do something else in another order: a load finds the record that
is related to a row, unless the load that writes over the key of the row comes before it. -/
theorem keysApart_of_sameRows {loads : List EagerLoad} (hnames : (loads.map (·.relation)).Nodup)
    (hsame : ∀ order, order.Perm loads → ∀ send page,
      SameRows (runAll send order page) (runAll send loads page)) : KeysApart loads := by
  intro load hload other hother hwrites
  by_contra hne
  have hperm : loads.Perm (load :: other :: (loads.erase load).erase other) :=
    (List.perm_cons_erase hload).trans
      ((List.perm_cons_erase ((List.mem_erase_of_ne hne).2 hother)).cons load)
  generalize (loads.erase load).erase other = rest at hperm
  have hdistinct := (hperm.map (·.relation)).nodup_iff.1 hnames
  have hnew : load.relation ∉ (other :: rest).map (·.relation) := (List.nodup_cons.1 hdistinct).1
  have hnewRest : load.relation ∉ rest.map (·.relation) :=
    fun hmem => hnew (List.mem_cons_of_mem _ hmem)
  -- One row with a key, and a table with the record that it leads to.
  let row : Row := [(load.localKey, .int 1)]
  let table : List Record := [single load.foreignKey (.int 1)]
  have hfirst := hsame _ hperm.symm (KeyEquality.plain.connection table) [row]
  have hsecond := hsame _ ((List.Perm.swap load other rest).trans hperm.symm)
    (KeyEquality.plain.connection table) [row]
  rw [runAll_single, runAll_single] at hfirst hsecond
  have hvalue := (hfirst.2 _ _ rfl rfl load.relation).trans
    (hsecond.2 _ _ rfl rfl load.relation).symm
  rw [List.map_singleton, List.map_singleton, lookup_foldl_step_self hnew, List.foldl_cons,
    lookup_foldl_step_self hnewRest] at hvalue
  have hkey : (step table row other).lookup load.localKey =
      some (other.attached (other.related KeyEquality.plain table row)) := by
    rw [step, attach, hwrites, lookup_insertEntry_self]
  rw [related_of_attached _ hkey, related_single] at hvalue
  cases hmany : load.many <;> simp [attached, hmany] at hvalue

end EagerLoad

/-- Of loads of different relations, each does what it does alone, in every order of the loads and
for every page, exactly if their keys are apart. Exactly then the order makes no difference. -/
theorem independent_iff_keysApart {loads : List EagerLoad}
    (hnames : (loads.map (·.relation)).Nodup) :
    ((∀ order, order.Perm loads → ∀ send page, Independent send order page) ↔ KeysApart loads) ∧
    ((∀ order, order.Perm loads → ∀ send page,
      SameRows (runAll send order page) (runAll send loads page)) ↔ KeysApart loads) := by
  have hindependent : KeysApart loads → ∀ order, order.Perm loads → ∀ send page,
      Independent send order page := by
    intro hapart order hperm send page
    refine independent_of_keysApart ((hperm.map _).nodup_iff.2 hnames) ?_ page
    exact fun load hload other hother =>
      hapart load (hperm.mem_iff.1 hload) other (hperm.mem_iff.1 hother)
  have hsame : (∀ order, order.Perm loads → ∀ send page, Independent send order page) →
      ∀ order, order.Perm loads → ∀ send page,
        SameRows (runAll send order page) (runAll send loads page) :=
    fun hall order hperm send page =>
      sameRows_of_perm hperm (hall order hperm send page) (hall loads (.refl _) send page)
  exact ⟨⟨fun hall => EagerLoad.keysApart_of_sameRows hnames (hsame hall), hindependent⟩,
    ⟨EagerLoad.keysApart_of_sameRows hnames, fun hapart => hsame (hindependent hapart)⟩⟩

namespace Target

variable (t : Target)

/-- Loads that a resource can have: each is for one of its references, in either way, and no two are
for the same. -/
structure HasLoads (loads : List EagerLoad) : Prop where
  references : ∀ load ∈ loads, ∃ relation ∈ t.resource.relations, ∃ strategy,
    t.eagerLoad strategy relation = .ok load
  distinct : (loads.map (·.relation)).Nodup

variable {t}

/-- The loads of a compiled request are loads that its resource can have. -/
theorem hasLoads_of_eagerLoads {request : Request} {loads : List EagerLoad}
    (hrelations : (t.resource.relations.map (·.name)).Nodup) (hfetch : request.fetch.IsDistinct)
    (hloads : t.eagerLoads request = .ok loads) : t.HasLoads loads := by
  obtain ⟨hdistinct, hmem⟩ := eagerLoads_eq_ok hrelations hfetch hloads
  refine ⟨fun load hload => ?_, hdistinct⟩
  obtain ⟨relation, hselects, hrelation⟩ := (hmem load).1 hload
  exact ⟨relation, hselects.mem, _, hrelation⟩

/-- Relations with one name are one relation. -/
theorem eq_of_name_eq {relations : List Relation} (hnodup : (relations.map (·.name)).Nodup)
    {relation other : Relation} (hrelation : relation ∈ relations) (hother : other ∈ relations)
    (hname : relation.name = other.name) : relation = other :=
  List.inj_on_of_nodup_map hnodup hrelation hother hname

/-- The keys of all loads that a resource can have are apart exactly if none of its references has
the name of the local key of another one. -/
theorem keysApart_iff_names (hrelations : (t.resource.relations.map (·.name)).Nodup)
    (htargets : ∀ relation ∈ t.resource.relations,
      ∃ target, t.registry.resource? relation.target = some target) :
    (∀ loads, t.HasLoads loads → KeysApart loads) ↔
      ∀ relation ∈ t.resource.relations, relation.embedded = false →
        ∀ other ∈ t.resource.relations, other.embedded = false →
          other.name = relation.localKey → other = relation := by
  constructor
  · intro hall relation hrelation hreference other hother hother' hwrites
    by_contra hne
    have hload (r : Relation) (hr : r ∈ t.resource.relations) (href : r.embedded = false) :
        ∃ load, t.eagerLoad .batched r = .ok load ∧ load.relation = r.name ∧
          load.localKey = r.localKey := by
      obtain ⟨target, htarget⟩ := htargets r hr
      exact ⟨_, by rw [eagerLoad, if_neg (by simp [href]), htarget], rfl, rfl⟩
    obtain ⟨load, hloadOk, hname, hkey⟩ := hload relation hrelation hreference
    obtain ⟨load', hloadOk', hname', -⟩ := hload other hother hother'
    have hnames : load.relation ≠ load'.relation := fun heq =>
      hne (eq_of_name_eq hrelations hother hrelation (by rw [← hname, ← hname', heq]))
    have hboth : t.HasLoads [load, load'] :=
      ⟨by simpa using ⟨⟨relation, hrelation, _, hloadOk⟩, ⟨other, hother, _, hloadOk'⟩⟩,
        by simpa using hnames⟩
    have hsame := hall _ hboth load List.mem_cons_self load' (by simp)
      (by rw [hname', hkey, hwrites])
    exact hnames (congrArg _ hsame.symm)
  · intro hnames loads hloads load hload other hother hwrites
    obtain ⟨relation, hrelation, _, hloadOk⟩ := hloads.references load hload
    obtain ⟨relation', hrelation', _, hloadOk'⟩ := hloads.references other hother
    obtain ⟨hreference, _, _, rfl⟩ := eagerLoad_eq_ok hloadOk
    obtain ⟨hreference', _, _, rfl⟩ := eagerLoad_eq_ok hloadOk'
    have hsame := hnames relation hrelation hreference relation' hrelation' hreference' hwrites
    exact List.inj_on_of_nodup_map hloads.distinct hother hload (congrArg Relation.name hsame)

/-- What the loads of a resource put into the rows of a page is what each of them puts there alone,
in any order, exactly if their keys are apart; and exactly then the order makes no difference. All
loads that the resource can have are so exactly if none of its references has the name of the local
key of another one. -/
theorem loads_independent_iff {options : Options} {entries : List Entry}
    (hbuild : Registry.build options entries = .ok t.registry)
    (hlisted : t.resource ∈ t.registry.entries.map (·.resource)) :
    (∀ loads, t.HasLoads loads →
      ((∀ order, order.Perm loads → ∀ send page, Independent send order page) ↔
        KeysApart loads) ∧
      ((∀ order, order.Perm loads → ∀ send page,
        SameRows (runAll send order page) (runAll send loads page)) ↔ KeysApart loads)) ∧
    ((∀ loads, t.HasLoads loads → KeysApart loads) ↔
      ∀ relation ∈ t.resource.relations, relation.embedded = false →
        ∀ other ∈ t.resource.relations, other.embedded = false →
          other.name = relation.localKey → other = relation) := by
  obtain ⟨hentries, hchecked, htargets⟩ := Registry.build_eq_ok hbuild
  obtain ⟨entry, hentry, hresource⟩ := List.mem_map.1 hlisted
  have hrelations : (t.resource.relations.map (·.name)).Nodup :=
    hresource ▸ Resource.nodup_relations (Registry.check_of_mem hchecked entry (hentries ▸ hentry))
  refine ⟨fun loads hloads => independent_iff_keysApart hloads.distinct,
    keysApart_iff_names hrelations fun relation hrelation => ?_⟩
  rw [← hresource] at hrelation
  exact Registry.resource?_target htargets hentry hrelation

end Target

namespace Parcels

/-- Parcels with the depot that they are bound for, and all routes to it. The key of both is the
column that holds the code of the depot. -/
def parcel (depot : String) : Resource where
  name := "parcel"
  storage := "parcels"
  attributes := [{ name := "depot_code", kind := .string, column := some "depot" }]
  relations := [.toOne depot "depot" "depot" "code", .toMany "routes" "route" "depot" "depot"]

/-- Parcels whose depot is loaded under a name. -/
def boundFor (depot : String) : Target where
  dialect := .sqlite
  functions := []
  registry := { entries := [parcel depot, { name := "depot", storage := "depots" },
    { name := "route", storage := "routes" }].map (⟨·, .relational .sqlite []⟩) }
  resource := parcel depot

/-- A request for all relations. -/
def withAll : Request where
  fetch := .all

/-- Under a name of its own, the depot does not disturb the routes, whichever comes first. -/
theorem loads_independent_destination :
    ∃ loads, (boundFor "destination").eagerLoads withAll = .ok loads ∧ loads.length = 2 ∧
      ∀ order, order.Perm loads → ∀ send page, Independent send order page := by
  have hbuild : Registry.build {} (boundFor "destination").registry.entries =
      .ok (boundFor "destination").registry := rfl
  obtain ⟨hloads, hkeys⟩ := Target.loads_independent_iff hbuild List.mem_cons_self
  have hhas : (boundFor "destination").HasLoads _ :=
    Target.hasLoads_of_eagerLoads (by decide) (show withAll.fetch.IsDistinct from trivial) rfl
  exact ⟨_, rfl, rfl, (hloads _ hhas).1.2 (hkeys.2 (by decide) _ hhas)⟩

/-- A database with one parcel for a depot, and one route to it. -/
def network : Connection Id
  | .select s => match s.table with
    | "parcels" => pure [[("id", .int64 (some 1)), ("depot", .text (some "A"))]]
    | "depots" => KeyEquality.plain.connection [[("code", .text (some "A"))]] (.select s)
    | "routes" => KeyEquality.plain.connection
        [[("depot", .text (some "A")), ("line", .text (some "7"))]] (.select s)
    | _ => throw .noAnswer
  | _ => throw .noAnswer

/-- The parcel as the statement of the page gives it. -/
def parcelRow : Row := [("depot", .string "A"), ("id", .int 1)]

/-- The load of the routes to the depot of a parcel. -/
def routesLoad : EagerLoad where
  relation := "routes"
  table := "routes"
  localKey := "depot"
  foreignKey := "depot"
  many := true
  strategy := .batched

def foundRoutes : Json := .array [.object [("depot", .string "A"), ("line", .string "7")]]

def withDepotAndRoutes : Request where
  fetch := .named ["depot", "routes"]

/-- Where the depot is loaded under the name of the column with its code, it takes the place of the
code, and no route is found for the parcel. By themselves the routes are found. -/
theorem depot_disturbs_routes :
    Registry.build {} (boundFor "depot").registry.entries = .ok (boundFor "depot").registry ∧
    Request.ofParams ⟨[("relations", "depot,routes")]⟩ (parcel "depot") {} =
      .ok withDepotAndRoutes ∧
    ∃ q, (boundFor "depot").compile withDepotAndRoutes = .ok q ∧ routesLoad ∈ q.eager ∧
      (∃ response, q.execute network = pure response ∧ response.results = [.object [
        ("depot", .object [("code", .string "A")]), ("id", .int 1), ("routes", .array [])]]) ∧
      routesLoad.run network [parcelRow] = pure [parcelRow ++ [("routes", foundRoutes)]] ∧
      ¬ Independent network q.eager [parcelRow] := by
  refine ⟨rfl, rfl, _, rfl, List.mem_cons_of_mem _ List.mem_cons_self, ⟨_, rfl, rfl⟩, rfl, ?_⟩
  intro hindependent
  have hroutes : [some (Json.array [])] = [some foundRoutes] :=
    hindependent.values _ rfl routesLoad (List.mem_cons_of_mem _ List.mem_cons_self) _ rfl
  cases hroutes

end Parcels
end Listing.Sql

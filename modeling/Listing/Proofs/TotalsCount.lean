/-
# The number of rows in totals

Totals without groups are one row over all rows that the filter finds, joined to the ends of the
paths of the metrics. A join to many rows repeats rows, so a plain count next to such a metric
counts the values of the primary key. The count is then the number of rows that the filter finds,
as a count statement gives it, and the executor may publish the one for the other.

A primary key of several columns is not counted by its values. There the plain count is right only
as long as no metric goes through a relation to many rows.

As with pages, a statement in which two tables have the same name is refused.
-/
import Listing.Proofs.PageRows
import Listing.Proofs.TotalsTrees
import Listing.Sql.Execution

namespace Listing.Sql

variable {engine : Engine} {db : Database}

section Joined

/-- A join leaves something of what was joined so far. -/
theorem Join.expand_ne_nil (j : Join) (scope : Scope) : j.expand engine db scope ≠ [] := by
  unfold Join.expand
  split
  · simp
  · rename_i hrows
    simpa using hrows

/-- Joins leave something of every row. -/
theorem expandAll_ne_nil (joins : List Join) (scope : Scope) :
    expandAll engine db joins scope ≠ [] := by
  induction joins generalizing scope with
  | nil => simp [expandAll]
  | cons j joins ih =>
      obtain ⟨next, hnext⟩ := List.exists_mem_of_ne_nil _ (j.expand_ne_nil scope)
      obtain ⟨found, hfound⟩ := List.exists_mem_of_ne_nil _ (ih next)
      rw [expandAll]
      exact List.ne_nil_of_mem (List.mem_flatMap.2 ⟨next, hnext, hfound⟩)

/-- A select finds what its joins make of the rows that it keeps. -/
theorem Select.mem_found_iff {s : Select} {selects : Listing.Record → Bool}
    (hkeeps : ∀ r ∈ db s.table, ∀ scope ∈ expandAll engine db s.joins [(s.table, r)],
      s.restriction.keeps engine db scope = selects r) {scope : Scope} :
    scope ∈ s.found engine db ↔ ∃ r ∈ (db s.table).filter selects,
      scope ∈ expandAll engine db s.joins [(s.table, r)] := by
  simp only [found, joined, List.mem_filter, List.mem_flatMap]
  constructor
  · rintro ⟨⟨r, hr, hscope⟩, hkept⟩
    exact ⟨r, ⟨hr, hkeeps r hr scope hscope ▸ hkept⟩, hscope⟩
  · rintro ⟨r, ⟨hr, hselected⟩, hscope⟩
    exact ⟨⟨r, hr, hscope⟩, (hkeeps r hr scope hscope).trans hselected⟩

/-- The values of a key of one column are different. -/
theorem Engine.IsKey.nodup_column (hlawful : engine.IsLawful) {column : String}
    {rows : List Listing.Record} (hkey : engine.IsKey [column] rows) :
    (rows.map (· column)).Nodup := by
  rw [List.Nodup, List.pairwise_map]
  refine List.Pairwise.imp_of_mem ?_ hkey.unique
  intro r r' hr _ hdiffer hsame
  have hequal : engine.sameKey [column] r r' = true := by
    simpa [Engine.sameKey, ← hsame] using
      hlawful.refl (r column) (hkey.present r hr column (by simp))
  simp [hequal] at hdiffer

theorem Engine.IsKey.filter {columns : List String} {rows : List Listing.Record}
    (hkey : engine.IsKey columns rows) (selects : Listing.Record → Bool) :
    engine.IsKey columns (rows.filter selects) where
  unique := hkey.unique.filter _
  present r hr := hkey.present r (List.mem_filter.1 hr).1

/-- Counting the distinct values of a key of one column counts the rows that are kept, however
often joins repeat them. -/
theorem Select.eval_countDistinct (hlawful : engine.IsLawful) {s : Select} {column : String}
    {selects : Listing.Record → Bool} (hkey : engine.IsKey [column] (db s.table))
    (hkeeps : ∀ r ∈ db s.table, ∀ scope ∈ expandAll engine db s.joins [(s.table, r)],
      s.restriction.keeps engine db scope = selects r) (env : Env) :
    engine.eval ((s.found engine db).map Scope.env) env (.countDistinct (.column s.table column))
      = .number ((db s.table).filter selects).length := by
  have hfiltered := hkey.filter selects
  have hvalues : ∀ x, x ∈ (((s.found engine db).map Scope.env).map fun row =>
        engine.eval ((s.found engine db).map Scope.env) row (.column s.table column)).filter
          (· != Datum.null) ↔ x ∈ ((db s.table).filter selects).map (· column) := by
    intro x
    simp only [List.mem_filter, List.mem_map, exists_exists_and_eq_and, Engine.eval, Scope.env,
      Select.mem_found_iff hkeeps]
    constructor
    · rintro ⟨⟨scope, ⟨r, hr, hscope⟩, rfl⟩, _⟩
      exact ⟨r, hr, by rw [row_of_mem_expandAll hscope]⟩
    · rintro ⟨r, hr, rfl⟩
      obtain ⟨scope, hscope⟩ :=
        List.exists_mem_of_ne_nil _ (expandAll_ne_nil s.joins
          [(s.table, r)])
      refine ⟨⟨scope, ⟨r, hr, hscope⟩, by rw [row_of_mem_expandAll hscope]⟩, ?_⟩
      simpa using hfiltered.present r (List.mem_filter.2 hr) column (by simp)
  have hperm := (List.perm_ext_iff_of_nodup (nodup_eraseDups _)
    (hfiltered.nodup_column hlawful)).2 fun x => List.mem_eraseDups.trans (hvalues x)
  rw [Engine.eval, hperm.length_eq, List.length_map]

theorem Join.Resolve.mono {names names' : List String} {joins : List Join}
    (hjoins : Join.Resolve names joins) (hnames : names ⊆ names') :
    Join.Resolve names' joins := by
  induction joins generalizing names names' with
  | nil => trivial
  | cons j joins ih =>
      obtain ⟨hparent, hrest⟩ := hjoins
      refine ⟨hnames hparent, ih hrest (List.append_subset.2 ⟨?_, List.subset_append_right _ _⟩)⟩
      exact List.Subset.trans hnames (List.subset_append_left _ _)

/-- Joins that refer to the same tables may follow each other. -/
theorem Join.Resolve.append {names : List String} {joins more : List Join}
    (hjoins : Join.Resolve names joins) (hmore : Join.Resolve names more) :
    Join.Resolve names (joins ++ more) := by
  induction joins generalizing names with
  | nil => exact hmore
  | cons j joins ih =>
      obtain ⟨hparent, hrest⟩ := hjoins
      exact ⟨hparent, ih hrest (hmore.mono (List.subset_append_left _ _))⟩

end Joined

section Execution

/-- The two halves of a sequence that succeeds. -/
theorem bind_eq_pure {ε α β : Type} {x : ExceptT ε Id α} {f : α → ExceptT ε Id β} {b : β} :
    x >>= f = pure b ↔ ∃ a, x = pure a ∧ f a = pure b := by
  constructor
  · intro hpure
    cases hx : x.run with
    | error e =>
        have hrun := congrArg ExceptT.run hpure
        rw [ExceptT.run_bind, hx] at hrun
        cases hrun
    | ok a =>
        have hx' : x = pure a := hx
        rw [hx', pure_bind] at hpure
        exact ⟨a, hx', hpure⟩
  · rintro ⟨a, rfl, hf⟩
    rw [pure_bind, hf]

/-- The record that was read for a row of output gives the plain count of the row as a 64-bit
integer. -/
def Record.Counts (record : Record) (row : List Output) : Prop :=
  ∀ x, Output.value countMetric x ∈ row → ∃ n : Int, Number.fitsSigned n = true ∧
    x = .number n ∧ record.lookup countMetric = some (.int64 (some n))

/-- A connection gives for a select what the database returns. -/
def Connection.Gives (send : Connection Id) (engine : Engine) (db : Database) (s : Select) : Prop :=
  ∃ records rows, send (.select s) = pure records ∧ s.Returns engine db rows ∧
    List.Forall₂ Record.Counts records rows

/-- A number of rows in the signed range is in the unsigned range. -/
theorem fitsUnsigned_of_fitsSigned {n : Nat} (hfits : Number.fitsSigned n = true) :
    Number.fitsUnsigned n = true := by
  rw [Number.fitsSigned, Bool.and_eq_true, decide_eq_true_eq, decide_eq_true_eq] at hfits
  have hsigned : n < Number.twoTo 63 := Int.ofNat_lt.1 hfits.2
  have hunsigned : n < Number.twoTo (63 + 1) := by
    rw [Number.twoTo_succ]
    exact Nat.lt_of_lt_of_le hsigned (Nat.le_mul_of_pos_left _ (by decide))
  rw [Number.fitsUnsigned, Bool.and_eq_true, decide_eq_true_eq, decide_eq_true_eq]
  exact ⟨Int.natCast_nonneg n, Int.ofNat_lt.2 hunsigned⟩

/-- The executor takes the number of rows from the only row of totals. -/
theorem totalOf_eq {q : TotalsQuery} {send : Connection Id} {record : Record} {n : Nat}
    {rows : List Row} (hdimensions : q.dimensions = []) (hmetric : countMetric ∈ q.metrics)
    (hsend : send q.statement = pure [record]) (hfits : Number.fitsSigned n = true)
    (hrecord : record.lookup countMetric = some (.int64 (some n)))
    (hrows : send.totals q = pure rows) : totalOf q rows = some n := by
  obtain ⟨records, hrecords, hpure⟩ := bind_eq_pure.1 hrows
  rw [hsend] at hrecords
  cases hrecords
  cases hpure
  have hvalue : record.metricValue countMetric = .int n := by
    rw [Record.metricValue, hrecord]
    rfl
  have hlookup : (q.metrics.foldl (fun row label =>
      insertEntry label (record.metricValue label) row) []).lookup countMetric =
        some (record.metricValue countMetric) :=
    lookup_foldl_insertEntry Function.injective_id record.metricValue hmetric []
  have hunsigned := fitsUnsigned_of_fitsSigned hfits
  have hread : (Json.int n).asUnsigned? = some n := by
    rw [Json.asUnsigned?, if_pos hunsigned, Int.toNat_natCast]
  rw [totalOf, hdimensions]
  show ((List.lookup countMetric (q.metrics.foldl _ [])).bind Json.asUnsigned?) = some n
  rw [hlookup, hvalue, Option.bind_some, hread]

/-- What the executor publishes as the number of rows, where they are not counted. -/
theorem total_of_execute {query : Query} {totals : TotalsQuery} {send : Connection Id}
    {response : ListResponse} (htotals : query.totals = some totals) (hcount : query.count = none)
    (hexecute : query.execute send = pure response) :
    ∃ rows, send.totals totals = pure rows ∧ response.total = totalOf totals rows := by
  obtain ⟨page, _, hrest⟩ := bind_eq_pure.1 hexecute
  rw [hcount, htotals] at hrest
  obtain ⟨counted, hcounted, hrest⟩ := bind_eq_pure.1 hrest
  obtain ⟨found, hfound, hrest⟩ := bind_eq_pure.1 hrest
  obtain ⟨_, _, hrest⟩ := bind_eq_pure.1 hrest
  cases hcounted
  obtain ⟨pair, hpair, hsome⟩ := bind_eq_pure.1 hfound
  obtain ⟨rows, hrows, hpure⟩ := bind_eq_pure.1 hpair
  cases hpure
  cases hsome
  cases hrest
  exact ⟨rows, hrows, rfl⟩

end Execution

namespace Target

variable {t : Target} {request : Request} {filter : Option Filter} {selection : Selection}
  {arguments : List (Metric × Option Expr)}

/-- The key by which totals of some paths count rows. -/
def totalsKey (t : Target) (paths : List Path) : Option Expr :=
  t.countKey ((t.noJoins totalsStem).addPaths t.registry paths)

/-- Some paths go through a relation to many rows. -/
def totalsReachMany (t : Target) (paths : List Path) : Bool :=
  (t.routesUsed paths).any Route.isToMany

/-- Rows are counted by a primary key of one column, where joins repeat them. -/
theorem totalsKey_eq (t : Target) (paths : List Path) :
    t.totalsKey paths = match t.resource.primaryKey with
      | [column] =>
        if t.totalsReachMany paths then some (.column t.resource.storage column) else none
      | _ => none := by
  have hmany : ((t.noJoins totalsStem).addPaths t.registry paths).hasToMany
      = t.totalsReachMany paths := by
    rw [Joins.hasToMany, routes_noJoins, totalsReachMany]
  show (match t.resource.primaryKey with
    | [column] =>
      if ((t.noJoins totalsStem).addPaths t.registry paths).hasToMany
        then some (.column t.resource.storage column) else none
    | _ => none : Option Expr) = _
  rw [hmany]

/-- The select of totals without groups. -/
def ungrouped (t : Target) (selection : Selection) (paths : List Path)
    (arguments : List (Metric × Option Expr)) : Select where
  columns := arguments.map fun (m, argument) =>
    .named (metricExpr (t.totalsKey paths) m.function argument) m.label
  table := t.resource.storage
  joins := selection.joins ++ (t.routesUsed paths).filterMap (t.join totalsStem)
  restriction := selection.restriction

/-- Totals without groups are one select. -/
theorem totals_eq_ok {a : Aggregate} {totals : Option TotalsQuery} (hmetrics : a.metrics ≠ [])
    (hungrouped : a.groupBy = []) (htotals : t.totals selection a = .ok totals) :
    ∃ arguments, a.metrics.mapM t.metricArgument = .ok arguments ∧ totals = some {
      statement := .select (t.ungrouped selection a.paths arguments)
      dimensions := []
      metrics := arguments.map (·.1.label) } := by
  have hsome : a.isEmpty = false := by
    simp [Aggregate.isEmpty, List.isEmpty_iff, hmetrics]
  unfold Target.totals at htotals
  rw [hsome, hungrouped] at htotals
  obtain ⟨dimensions, hdimensions, hrest⟩ := Result.bind_eq_ok.1 htotals
  obtain ⟨arguments, harguments, hrest⟩ := Result.bind_eq_ok.1 hrest
  cases hdimensions
  refine ⟨arguments, harguments, ?_⟩
  dsimp only at hrest
  rw [joinsOf_noJoins] at hrest
  cases hrest
  simp [ungrouped, totalsKey, totalsStatement, groupOrder, List.map_map, Function.comp_def]

/-- The column at the end of a path is one of the table that the path leads to. -/
theorem column_eq_ok {stem param : String} {path : Path} {column : Expr}
    (hcolumn : t.column stem param path = .ok column) :
    (∀ hop ∈ t.routeOf path, hop.relation.embedded = false) ∧
      ∃ name, column = .column (t.tableOf stem (t.routeOf path)) name := by
  obtain ⟨located, hlocate, hrest⟩ := Result.bind_eq_ok.1 hcolumn
  obtain ⟨hseparate, rfl⟩ := columnOf_eq_ok hrest
  have hroute : t.routeOf path = located.route := by
    rw [routeOf, Registry.walk_of_locate hlocate]
  rw [hroute]
  exact ⟨hseparate, _, rfl⟩

/-- A group is the column at the end of its path. -/
theorem dimension_eq_ok {path : Path} {found : Labelled} (hfound : t.dimension path = .ok found) :
    ∃ name, found = (path.label, .column (t.tableOf totalsStem (t.routeOf path)) name) := by
  obtain ⟨column, hcolumn, hrest⟩ := Result.bind_eq_ok.1 hfound
  cases hrest
  obtain ⟨_, name, rfl⟩ := column_eq_ok hcolumn
  exact ⟨name, rfl⟩

/-- The argument of a metric is the column at the end of its path. -/
theorem metricArgument_eq_ok {m : Metric} {found : Metric × Option Expr}
    (hfound : t.metricArgument m = .ok found) :
    found.1 = m ∧ match m.path with
      | none => found.2 = none
      | some path => (∀ hop ∈ t.routeOf path, hop.relation.embedded = false) ∧
          ∃ name, found.2 = some (.column (t.tableOf totalsStem (t.routeOf path)) name) := by
  obtain ⟨argument, hargument, hrest⟩ := Result.bind_eq_ok.1 hfound
  cases hrest
  refine ⟨rfl, ?_⟩
  cases hpath : m.path with
  | none =>
      rw [hpath] at hargument
      cases hargument
      rfl
  | some path =>
      rw [hpath] at hargument
      obtain ⟨column, hcolumn, hsome⟩ := Result.map_eq_ok.1 hargument
      obtain ⟨hseparate, name, rfl⟩ := column_eq_ok hcolumn
      exact ⟨hseparate, name, hsome.symm⟩

/-- The paths of totals that are computed cross no embedded relation. -/
theorem separate_of_arguments {metrics : List Metric}
    (harguments : metrics.mapM t.metricArgument = .ok arguments) :
    ∀ path ∈ metrics.filterMap (·.path), ∀ hop ∈ t.routeOf path,
      hop.relation.embedded = false := by
  intro path hpath
  obtain ⟨m, hm, hsome⟩ := List.mem_filterMap.1 hpath
  obtain ⟨found, _, hfound⟩ := Result.mapM_eq_ok_mem harguments hm
  have hargument := (metricArgument_eq_ok hfound).2
  rw [hsome] at hargument
  exact hargument.1

/-- A part of a path that goes through no relation to many rows joins one row. -/
theorem isDirect_of_prefix {route : Route} {path : Path} (hnonempty : route ≠ [])
    (hbegins : route <+: t.routeOf path) (hone : route.isToMany = false)
    (hseparate : ∀ hop ∈ t.routeOf path, hop.relation.embedded = false) : t.IsDirect route where
  nonempty := hnonempty
  walked := ⟨path.relations, hbegins⟩
  one hop hhop := Bool.eq_false_iff.2 (List.any_eq_false.1 hone hop hhop)
  separate hop hhop := hseparate hop (hbegins.subset hhop)

/-- Metrics without relations to many rows join one row each. -/
theorem isDirect_of_arguments {metrics : List Metric}
    (harguments : metrics.mapM t.metricArgument = .ok arguments)
    (hone : t.totalsReachMany (metrics.filterMap (·.path)) = false) :
    ∀ route ∈ t.routesUsed (metrics.filterMap (·.path)), t.IsDirect route := by
  intro route hroute
  obtain ⟨hnonempty, path, hpath, hbegins⟩ := mem_routesUsed.1 hroute
  exact isDirect_of_prefix hnonempty hbegins
    (Bool.eq_false_iff.2 (List.any_eq_false.1 hone route hroute))
    (separate_of_arguments harguments path hpath)

/-- A metric is computed over all rows of a group. -/
theorem isAggregate_metricExpr (key : Option Expr) (function : MetricFunction)
    (argument : Option Expr) : (metricExpr key function argument).isAggregate = true := by
  cases function <;> cases argument <;> cases key <;> rfl

/-- The names that filter and totals use are different. They are used side by side, unless the
filter goes through a relation to many rows. -/
def TotalsNamesApart (t : Target) (filter : Option Filter) (paths : List Path) : Prop :=
  (t.resource.storage ::
    ((t.routesUsed (t.joinedPaths filter)).map (·.aliasName Joins.defaultStem) ++
      (t.routesUsed paths).map (·.aliasName totalsStem))).Nodup ∧
  (t.reachesMany filter = true → t.NamesApart (pathsOf filter))

instance (filter : Option Filter) (paths : List Path) :
    Decidable (t.TotalsNamesApart filter paths) :=
  inferInstanceAs (Decidable (List.Nodup _ ∧ (_ → t.NamesApart _)))

/-- The tables of totals: those of the filter, unless it is moved into a select of keys, and those
of the metrics. -/
theorem names_ungrouped (hselection : t.selection filter = .ok selection) (paths : List Path)
    (arguments : List (Metric × Option Expr)) :
    (t.ungrouped selection paths arguments).names = t.resource.storage ::
      ((t.routesUsed (t.joinedPaths filter)).map (·.aliasName Joins.defaultStem) ++
        (t.routesUsed paths).map (·.aliasName totalsStem)) := by
  obtain ⟨_, _, rfl⟩ := selection_eq_ok hselection
  rw [Select.names, ungrouped, List.map_append, aliasNames_joinsOf,
    (resolve_of_isOrdered (t.isOrdered_routesUsed paths)).2]

theorem ungrouped_distinct_iff (hselection : t.selection filter = .ok selection)
    (paths : List Path) (arguments : List (Metric × Option Expr)) :
    (t.ungrouped selection paths arguments).Distinct ↔ t.TotalsNamesApart filter paths := by
  rw [Select.Distinct, names_ungrouped hselection, TotalsNamesApart]
  exact and_congr_right fun _ => restriction_distinct_iff hselection

/-- The joins of totals refer to tables before them. -/
theorem resolve_totalsJoins (hselection : t.selection filter = .ok selection) (paths : List Path) :
    Join.Resolve [t.resource.storage]
      (selection.joins ++ (t.routesUsed paths).filterMap (t.join totalsStem)) := by
  refine Join.Resolve.append ?_ (resolve_of_isOrdered (t.isOrdered_routesUsed _)).1
  obtain ⟨_, _, rfl⟩ := selection_eq_ok hselection
  exact resolve_joinsOf

/-- A metric has a property that passes from parts to the whole, if the columns of the listed table
have it and those of the tables at the ends of the paths. -/
theorem metricExpr_of_hereditary {written p : Expr → Prop} {ok : Value → Prop}
    (hp : Expr.Hereditary written p ok) {metrics : List Metric}
    (harguments : metrics.mapM t.metricArgument = .ok arguments)
    {paths : List Path} (hpaths : metrics.filterMap (·.path) ⊆ paths)
    (hroot : ∀ name, p (.column t.resource.storage name))
    (hcolumns : ∀ path ∈ paths, ∀ name,
      p (.column (t.tableOf totalsStem (t.routeOf path)) name)) :
    ∀ found ∈ arguments, p (metricExpr (t.totalsKey paths) found.1.function found.2) := by
  intro ⟨m, argument⟩ hmem
  obtain ⟨m', hm', hfound⟩ := Result.mem_of_mapM_eq_ok harguments hmem
  obtain ⟨rfl, hargument⟩ := metricArgument_eq_ok hfound
  refine hp.metricExpr m.function (fun e he => ?_) fun e he => ?_
  · rw [totalsKey_eq] at he
    split at he
    · split at he
      · cases he
        exact hroot _
      · cases he
    · cases he
  · dsimp only at hargument he
    cases hpath : m.path with
    | none =>
        rw [hpath] at hargument
        simp [hargument] at he
    | some path =>
        rw [hpath] at hargument
        obtain ⟨_, name, hname⟩ := hargument
        obtain rfl : _ = e := Option.some.inj (hname.symm.trans he)
        exact hcolumns path (hpaths (List.mem_filterMap.2 ⟨m, hm', hpath⟩)) name

/-- A metric names the listed table and the tables at the ends of its paths. -/
theorem isOver_argument {metrics : List Metric}
    (harguments : metrics.mapM t.metricArgument = .ok arguments)
    {paths : List Path} (hpaths : metrics.filterMap (·.path) ⊆ paths) {names : List String}
    (hnames : t.resource.storage :: (t.routesUsed paths).map (·.aliasName totalsStem) ⊆ names) :
    ∀ found ∈ arguments,
      (metricExpr (t.totalsKey paths) found.1.function found.2).IsOver names :=
  metricExpr_of_hereditary (Expr.hereditary_isOver names) harguments hpaths
    (fun _ => Expr.isOver_column (hnames List.mem_cons_self)) fun _ hpath _ =>
      Expr.isOver_column (hnames (t.tableOf_mem_routesUsed totalsStem hpath))

/-- Totals refer to tables that they have. -/
theorem ungrouped_resolves (hselection : t.selection filter = .ok selection)
    {metrics : List Metric} (harguments : metrics.mapM t.metricArgument = .ok arguments)
    {paths : List Path} (hpaths : metrics.filterMap (·.path) ⊆ paths) :
    (t.ungrouped selection paths arguments).Resolves := by
  have hnames := names_ungrouped hselection paths arguments
  refine ⟨resolve_totalsJoins hselection paths, restriction_resolves hselection ?_, ?_,
    by simp [ungrouped], by simp [ungrouped]⟩
  · rw [Select.names, ungrouped, List.map_append]
    exact List.cons_subset_cons _ (List.subset_append_left _ _)
  · intro column hcolumn
    obtain ⟨found, hmem, rfl⟩ := List.mem_map.1 hcolumn
    rw [Projection.Resolves, hnames]
    exact isOver_argument harguments hpaths
      (List.cons_subset_cons _ (List.subset_append_right _ _)) found hmem

/-- The plain count of totals is the number of rows that the filter finds, unless rows of a key of
several columns are repeated. -/
theorem eval_count (hlawful : engine.IsLawful) (hkeys : t.HasKeys engine db)
    (hselection : t.selection filter = .ok selection) {metrics : List Metric}
    (harguments : metrics.mapM t.metricArgument = .ok arguments)
    (hcounted : t.resource.primaryKey.length = 1 ∨
      t.totalsReachMany (metrics.filterMap (·.path)) = false) (env : Env) :
    engine.eval (((t.ungrouped selection (metrics.filterMap (·.path)) arguments).found
        engine db).map Scope.env) env
      (metricExpr (t.totalsKey (metrics.filterMap (·.path))) .count none)
      = .number (t.foundRows engine db filter).length := by
  cases hmany : t.totalsReachMany (metrics.filterMap (·.path)) with
  | false =>
      -- Nothing is repeated, so rows are counted as they are joined.
      have hkey : t.totalsKey (metrics.filterMap (·.path)) = none := by
        rw [totalsKey_eq, hmany]
        split <;> rfl
      have hrows := map_row_found_eq hlawful hkeys hselection
        (s := t.ungrouped selection (metrics.filterMap (·.path)) arguments) rfl rfl rfl
        (isSingle_of_isDirect hlawful hkeys (isDirect_of_arguments harguments hmany))
      have hlength := congrArg List.length hrows
      rw [List.length_map] at hlength
      rw [hkey, metricExpr, Engine.eval, List.length_map, hlength]
      rfl
  | true =>
      obtain ⟨column, hcolumn⟩ := List.length_eq_one_iff.1
        (hcounted.resolve_right (by simp [hmany]))
      have hkey : t.totalsKey (metrics.filterMap (·.path))
          = some (.column t.resource.storage column) := by
        rw [totalsKey_eq, hmany, hcolumn]
        rfl
      have hprimary := hkeys.primary
      rw [hcolumn] at hprimary
      rw [hkey, metricExpr]
      exact Select.eval_countDistinct hlawful hprimary
        (fun r hr scope hscope => keeps_eq_finds hlawful hkeys hselection _ hr hscope) env

/-- Only the plain count has its label. -/
theorem label_eq_countMetric {m : Metric} : m.label = countMetric ↔ m = ⟨.count, none⟩ := by
  obtain ⟨function, path⟩ := m
  cases path with
  | none => cases function <;> decide
  | some path =>
      have hlong : '_' ∈ (Metric.label ⟨function, some path⟩).toList := by
        simp [Metric.label]
      constructor
      · intro hlabel
        rw [hlabel] at hlong
        exact absurd hlong (by decide)
      · intro hcount
        cases hcount

/-- The row of totals holds the number of rows that the filter finds as its plain count. -/
theorem mem_output_ungrouped (hlawful : engine.IsLawful) (hkeys : t.HasKeys engine db)
    (hselection : t.selection filter = .ok selection) {metrics : List Metric}
    (harguments : metrics.mapM t.metricArgument = .ok arguments)
    (hcounted : t.resource.primaryKey.length = 1 ∨
      t.totalsReachMany (metrics.filterMap (·.path)) = false)
    (hcount : ⟨.count, none⟩ ∈ metrics) (x : Datum) :
    let s := t.ungrouped selection (metrics.filterMap (·.path)) arguments
    Output.value countMetric x ∈ s.output engine (s.found engine db) ↔
      x = .number (t.foundRows engine db filter).length := by
  intro s
  have hvalue := eval_count hlawful hkeys hselection harguments hcounted
  have hplain {found : Metric × Option Expr} (hfound : found ∈ arguments)
      (hlabel : found.1.label = countMetric) : found = (⟨.count, none⟩, none) := by
    obtain ⟨m, _, hm⟩ := Result.mem_of_mapM_eq_ok harguments hfound
    obtain ⟨hsame, hargument⟩ := metricArgument_eq_ok hm
    rw [label_eq_countMetric] at hlabel
    rw [← hsame, hlabel] at hargument
    exact Prod.ext hlabel hargument
  have houtput : Output.value countMetric x ∈ s.output engine (s.found engine db) ↔
      ∃ found ∈ arguments, found.1.label = countMetric ∧
        x = engine.eval ((s.found engine db).map Scope.env)
          (((s.found engine db).headD []).env)
          (metricExpr (t.totalsKey (metrics.filterMap (·.path))) found.1.function found.2) := by
    simp only [Select.output, s, ungrouped, List.flatMap_map, List.mem_flatMap, Projection.output,
      List.mem_singleton, Output.value.injEq, eq_comm]
  rw [houtput]
  constructor
  · rintro ⟨found, hfound, hlabel, rfl⟩
    rw [hplain hfound hlabel]
    exact hvalue _
  · rintro rfl
    obtain ⟨found, hfound, hm⟩ := Result.mapM_eq_ok_mem harguments hcount
    have hlabel : found.1.label = countMetric := by rw [(metricArgument_eq_ok hm).1]; rfl
    refine ⟨found, hfound, hlabel, ?_⟩
    rw [hplain hfound hlabel]
    exact (hvalue _).symm

/-- A count returns the number of rows that its filter finds, if the names of what it uses are
different. -/
theorem count_returns_iff (hlawful : engine.IsLawful) (hkeys : t.HasKeys engine db)
    (hselection : t.selection filter = .ok selection) (rows : List (List Output)) :
    (t.count selection).Returns engine db rows ↔ t.NamesApart (pathsOf filter) ∧
      rows = [[.value countLabel (.number (t.foundRows engine db filter).length)]] := by
  rw [← count_distinct_iff hselection]
  exact Select.returns_count_iff (count_resolves hselection) rfl rfl rfl rfl
    (map_row_found_eq hlawful hkeys hselection rfl (List.append_nil _).symm rfl
      fun j hj => nomatch hj) rows

/-- Totals without groups that have a plain count are one select. It returns one row, whose plain
count is the number of rows that the filter finds; this is what a count statement of the same
filter returns, and what the executor publishes as the number of rows if it is not counted. The
primary key has one column, or the metrics go through no relation to many rows. -/
theorem totals_count_returns (hlawful : engine.IsLawful) (hkeys : t.HasKeys engine db)
    {query : Query} (hcompile : t.compile request = .ok query)
    (hungrouped : request.aggregate.groupBy = [])
    (hcount : ⟨.count, none⟩ ∈ request.aggregate.metrics)
    (hcounted : t.resource.primaryKey.length = 1 ∨
      t.totalsReachMany request.aggregate.paths = false) :
    ∃ totals s, query.totals = some totals ∧ totals.statement = .select s ∧
      ((∃ rows, s.Returns engine db rows) ↔
        t.TotalsNamesApart request.filter request.aggregate.paths) ∧
      (∀ rows, s.Returns engine db rows → ∃ row, rows = [row] ∧
        ∀ x, .value countMetric x ∈ row ↔
          x = .number (t.foundRows engine db request.filter).length) ∧
      (∀ request' query', request'.filter = request.filter → t.compile request' = .ok query' →
        ∀ count ∈ query'.count, ∀ rows, count.Returns engine db rows ↔
          t.NamesApart (pathsOf request.filter) ∧
            rows = [[.value countLabel
              (.number (t.foundRows engine db request.filter).length)]]) ∧
      ∀ (send : Connection Id) response, send.Gives engine db s → query.count = none →
        query.execute send = pure response →
          response.total = some (t.foundRows engine db request.filter).length := by
  obtain ⟨selection, hselection, hrest⟩ := Result.bind_eq_ok.1 hcompile
  obtain ⟨terms, hterms, hrest⟩ := Result.bind_eq_ok.1 hrest
  obtain ⟨totals, htotals, hrest⟩ := Result.bind_eq_ok.1 hrest
  obtain ⟨eager, _, hrest⟩ := Result.bind_eq_ok.1 hrest
  obtain ⟨arguments, harguments, rfl⟩ :=
    totals_eq_ok (List.ne_nil_of_mem hcount) hungrouped htotals
  have hpaths : request.aggregate.paths = request.aggregate.metrics.filterMap (·.path) := by
    rw [Aggregate.paths, hungrouped, List.nil_append]
  rw [hpaths] at hcounted hrest ⊢
  have hrow := mem_output_ungrouped hlawful hkeys hselection harguments hcounted hcount
  have hresolves := ungrouped_resolves hselection harguments (List.Subset.refl _)
  have haggregates : (t.ungrouped selection (request.aggregate.metrics.filterMap (·.path))
      arguments).columns.any Projection.isAggregate = true := by
    obtain ⟨found, hfound, _⟩ := Result.mapM_eq_ok_mem harguments hcount
    exact List.any_eq_true.2 ⟨_, List.mem_map_of_mem hfound, isAggregate_metricExpr _ _ _⟩
  have hreturns (rows : List (List Output)) : Select.Returns engine db _ rows ↔ _ :=
    Select.returns_aggregates_iff hresolves haggregates rfl rfl rfl rows
  cases hrest
  refine ⟨_, _, rfl, rfl, ?_, ?_, ?_, ?_⟩
  · rw [← ungrouped_distinct_iff hselection]
    refine ⟨?_, fun hdistinct => ⟨_, (hreturns _).2 ⟨hdistinct, rfl⟩⟩⟩
    rintro ⟨rows, hrows⟩
    exact hrows.distinct
  · intro rows hrows
    exact ⟨_, ((hreturns rows).1 hrows).2, hrow⟩
  · intro request' query' hfilter hcompile' count hmem rows
    obtain ⟨selection', hselection', hrest⟩ := Result.bind_eq_ok.1 hcompile'
    obtain ⟨_, _, hrest⟩ := Result.bind_eq_ok.1 hrest
    obtain ⟨_, _, hrest⟩ := Result.bind_eq_ok.1 hrest
    obtain ⟨_, _, hrest⟩ := Result.bind_eq_ok.1 hrest
    cases hrest
    dsimp only at hmem
    split at hmem
    · cases hmem
      rw [← hfilter]
      exact count_returns_iff hlawful hkeys hselection' rows
    · cases hmem
  · rintro send response ⟨records, rows, hsend, hrows, hrecords⟩ hnone hexecute
    obtain ⟨answer, hanswer, htotal⟩ := total_of_execute rfl hnone hexecute
    obtain ⟨-, rfl⟩ := (hreturns rows).1 hrows
    obtain ⟨record, rest, hcounts, hrest, rfl⟩ := List.forall₂_cons_right_iff.1 hrecords
    obtain rfl := List.forall₂_nil_right_iff.1 hrest
    obtain ⟨n, hfits, hsame, hrecord⟩ := hcounts _ ((hrow _).2 rfl)
    obtain rfl : n = ((t.foundRows engine db request.filter).length : Int) := by
      have hnumber := Datum.number.inj hsame
      exact_mod_cast hnumber.symm
    have hmetric : countMetric ∈ arguments.map (·.1.label) := by
      obtain ⟨found, hfound, hm⟩ := Result.mapM_eq_ok_mem harguments hcount
      exact List.mem_map.2 ⟨found, hfound, by rw [(metricArgument_eq_ok hm).1]; rfl⟩
    rw [htotal]
    exact totalOf_eq rfl hmetric hsend hfits hrecord hanswer

end Target

namespace Shop

/-- How many products there are, and how they are rated. -/
def rated : Request where
  aggregate := { metrics := [⟨.count, none⟩, ⟨.avg, some ⟨["reviews"], "rating"⟩⟩] }

/-- Two products are counted as two, though one of them has two reviews. -/
theorem totals_count_returns_rated :
    ∃ query totals s row, (target "products").compile rated = .ok query ∧
      query.totals = some totals ∧ totals.statement = .select s ∧
      s.Returns Engine.plain (rows "products") [row] ∧
      .value countMetric (.number 2) ∈ row := by
  have hkeys := hasKeys (show "products" ≠ "categories" by decide)
  obtain ⟨totals, s, htotals, hstatement, hreturns, hrow, _, _⟩ :=
    Target.totals_count_returns Engine.isLawful_plain hkeys
      (show (target "products").compile rated = _ from rfl) rfl (by decide) (.inl rfl)
  obtain ⟨rows, hrows⟩ := hreturns.2 (by decide +kernel)
  obtain ⟨row, rfl, hcount⟩ := hrow rows hrows
  exact ⟨_, totals, s, row, rfl, htotals, hstatement, hrows, (hcount _).2 rfl⟩

/-- Products that are identified by their number and their name. -/
def named : Resource := { products "products" with primaryKey := ["id", "name"] }

theorem hasKeys_named : (shopOf named).HasKeys Engine.plain (rows "products") := by
  constructor
  · show Engine.plain.IsKey ["id", "name"] [lamp, desk]
    constructor
    · unfold Engine.IsUnique
      decide +kernel
    · decide +kernel
  · intro names hop hhop hone _
    exact isUnique_of_walk hhop rfl rfl rfl hone

/-- With a key of two columns, a product is counted once for each of its reviews: the plain count
is three, where the filter finds two products. -/
theorem totals_count_repeats_reviewed :
    ∃ query totals s, named.check = .ok () ∧
      rated.validate (shopOf named).registry named = .ok () ∧
      (shopOf named).compile rated = .ok query ∧ query.totals = some totals ∧
      totals.statement = .select s ∧
      (shopOf named).HasKeys Engine.plain (rows "products") ∧ Engine.plain.IsLawful ∧
      (shopOf named).foundRows Engine.plain (rows "products") rated.filter = [lamp, desk] ∧
      s.Returns Engine.plain (rows "products")
        [[.value countMetric (.number 3), .value "avg_reviews__rating" .null]] := by
  refine ⟨_, _, _, rfl, rfl, rfl, rfl, rfl, hasKeys_named, Engine.isLawful_plain, rfl, ?_⟩
  have hresolves := Target.ungrouped_resolves
    (show (shopOf named).selection none = _ from rfl)
    (show rated.aggregate.metrics.mapM (shopOf named).metricArgument = _ from rfl)
    (List.Subset.refl _)
  exact (Select.returns_aggregates_iff hresolves rfl rfl rfl rfl _).2 ⟨by decide +kernel, rfl⟩

end Shop
end Listing.Sql

/-
# What further metrics change

All metrics of a request are computed over the same joined rows. Asking for further ones joins
further tables: the joined rows are then, in another arrangement, what the further joins make of
those that were there before. Joins to one row leave their number and what a metric looks at as
they were. A join to many rows repeats them, and with them what is summed and counted. Only the
least and the greatest value are the same when values are repeated, and a plain count is right as
far as it counts the values of a primary key.
-/
import Listing.Proofs.Compiling
import Listing.Proofs.JoinViews
import Mathlib.Algebra.Order.Ring.Unbundled.Rat
import Mathlib.Algebra.Ring.Rat

namespace Listing.Sql

/-- The value of an aggregate depends on which values there are and how often, but not on their
order; the least and the greatest value depend only on which there are. -/
structure Engine.AggregatesValues (engine : Engine) : Prop where
  perm : ∀ {function xs ys}, xs.Perm ys → engine.aggregate function xs = engine.aggregate function ys
  extreme : ∀ {function xs ys}, function = "MIN" ∨ function = "MAX" → (∀ x, x ∈ xs ↔ x ∈ ys) →
    engine.aggregate function xs = engine.aggregate function ys

variable {engine : Engine} {db : Database}

section Found

theorem filter_flatMap_of_forall {α β : Type} {xs : List α} {f : α → List β} {p : β → Bool}
    {q : α → Bool} (hpq : ∀ x ∈ xs, ∀ y ∈ f x, p y = q x) :
    (xs.flatMap f).filter p = (xs.filter q).flatMap f := by
  induction xs with
  | nil => rfl
  | cons x xs ih =>
      have hfirst := hpq x List.mem_cons_self
      rw [List.flatMap_cons, List.filter_append,
        ih fun x' hx' => hpq x' (List.mem_cons_of_mem x hx')]
      cases hq : q x with
      | true =>
          rw [List.filter_cons_of_pos hq, List.flatMap_cons,
            List.filter_eq_self.2 fun y hy => (hfirst y hy).trans hq]
      | false =>
          rw [List.filter_cons_of_neg (by simp [hq]), List.filter_eq_nil_iff.2 fun y hy => by
            simp [hfirst y hy, hq], List.nil_append]

/-- What a restriction says does not change when further tables are joined. -/
theorem Restriction.keeps_append {restriction : Restriction} {scope : Scope} (more : Scope)
    (hscope : scope ≠ []) (hresolves : restriction.Resolves scope.names) :
    restriction.keeps engine db (scope ++ more) = restriction.keeps engine db scope := by
  cases restriction with
  | nothing => rfl
  | holds e =>
      have hover : ∀ e' ∈ some e, e'.IsOver scope.names := fun e' he' => by
        cases he'
        exact hresolves
      exact Scope.keepsScope_append engine more hscope hover
  | keyAmong query => rw [keeps, keeps, Scope.row_append more hresolves.1]

/-- What a select finds is seen as what its last joins make of what the joins before them find, if
its restriction looks only at these. -/
theorem Select.map_row_found_extend {s : Select} {joins more : List Join}
    (hjoins : s.joins = joins ++ more)
    (hresolves : s.restriction.Resolves (s.table :: joins.map (·.aliasName)))
    (hnodup : s.names.Nodup) :
    (s.found engine db).map Scope.row =
      ((((joined engine db s.table joins).filter (s.restriction.keeps engine db ·)).map
        Scope.row).flatMap (extend engine db more)) := by
  have hnames : ∀ scope ∈ joined engine db s.table joins,
      scope.names = s.table :: joins.map (·.aliasName) := by
    intro scope hscope
    obtain ⟨r, _, hmem⟩ := List.mem_flatMap.1 hscope
    obtain ⟨more, rfl, hmore⟩ := mem_expandAll hmem
    rw [Scope.names, List.map_append]
    exact congrArg (s.table :: ·) hmore
  have hjoined : joined engine db s.table s.joins =
      (joined engine db s.table joins).flatMap (expandAll engine db more) := by
    rw [hjoins, joined, joined, List.flatMap_assoc]
    exact List.flatMap_congr fun r _ => expandAll_append joins more _
  rw [found, hjoined, filter_flatMap_of_forall fun scope hscope found hfound => ?_,
    List.map_flatMap, List.flatMap_map]
  · refine List.flatMap_congr fun scope hscope => map_row_expandAll ?_
    rw [hnames scope (List.mem_filter.1 hscope).1]
    rw [names, hjoins, List.map_append] at hnodup
    exact hnodup
  · obtain ⟨rest, rfl, _⟩ := mem_expandAll hfound
    have hscopeNames := hnames scope hscope
    refine Restriction.keeps_append rest (fun hnil => ?_) (hscopeNames ▸ hresolves)
    rw [hnil] at hscopeNames
    cases hscopeNames

end Found

section Columns

variable {joins : List Join} {views views' : List View} {table : String}

/-- Joins to one row under other names leave a column as it was. -/
theorem map_column_of_isSingle (hjoins : ∀ j ∈ joins, j.IsSingle engine db)
    (htable : table ∉ joins.map (·.aliasName))
    (hviews : views'.Perm (views.flatMap (extend engine db joins))) {α : Type}
    (f : Listing.Record → α) :
    (views'.map fun view => f (view table)).Perm (views.map fun view => f (view table)) := by
  refine (hviews.map _).trans (.of_eq ?_)
  rw [List.map_flatMap, List.map_eq_flatMap]
  refine List.flatMap_congr fun view _ => ?_
  obtain ⟨view', hview'⟩ := extend_of_isSingle hjoins view
  have hmem : view' ∈ extend engine db joins view := hview' ▸ List.mem_singleton_self view'
  rw [hview', List.map_singleton, eq_of_mem_extend hmem htable]

/-- Joins under other names leave it as it was which values a column has. -/
theorem mem_map_column_iff (htable : table ∉ joins.map (·.aliasName))
    (hviews : views'.Perm (views.flatMap (extend engine db joins))) {α : Type}
    (f : Listing.Record → α) (x : α) :
    x ∈ (views'.map fun view => f (view table)) ↔ x ∈ views.map fun view => f (view table) := by
  rw [(hviews.map _).mem_iff]
  simp only [List.mem_map, List.mem_flatMap]
  constructor
  · rintro ⟨view', ⟨view, hview, hview'⟩, rfl⟩
    exact ⟨view, hview, by rw [eq_of_mem_extend hview' htable]⟩
  · rintro ⟨view, hview, rfl⟩
    have hextend : extend engine db joins view ≠ [] := extend_ne_nil joins view
    obtain ⟨view', hview'⟩ := List.exists_mem_of_ne_nil _ hextend
    exact ⟨view', ⟨view, hview, hview'⟩, by rw [eq_of_mem_extend hview' htable]⟩

end Columns

/-- Without groups, the paths of totals are those of the metrics. -/
theorem paths_of_ungrouped {a : Aggregate} (hungrouped : a.groupBy = []) :
    a.paths = a.metrics.filterMap (·.path) := by
  rw [Aggregate.paths, hungrouped, List.nil_append]

namespace Target

variable {t : Target} {request : Request} {filter : Option Filter} {selection : Selection}
  {paths paths' : List Path}

/-- Further paths use the same routes and further ones, in some arrangement. -/
theorem exists_further_routes (t : Target) (hpaths : paths ⊆ paths') :
    ∃ added, t.routesUsed (paths ++ paths') = t.routesUsed paths ++ added ∧
      (t.routesUsed paths').Perm (t.routesUsed paths ++ added) ∧
      ∀ route ∈ added, route ∈ t.routesUsed paths' ∧ route ∉ t.routesUsed paths := by
  obtain ⟨added, hadded, hsubset⟩ := t.routesUsed_append paths paths'
  have hnodup : (t.routesUsed (paths ++ paths')).Nodup := nodup_eraseDups _
  refine ⟨added, hadded, ?_, fun route hroute => ⟨hsubset hroute, fun hbefore => ?_⟩⟩
  · rw [← hadded]
    refine (List.perm_ext_iff_of_nodup (nodup_eraseDups _) hnodup).2 fun route => ?_
    rw [← routesUsed, mem_routesUsed, mem_routesUsed]
    refine and_congr_right fun _ => exists_congr fun path => and_congr_left fun _ => ?_
    rw [List.mem_append]
    exact ⟨.inr, fun hmem => hmem.elim (hpaths ·) id⟩
  · rw [hadded] at hnodup
    exact (List.nodup_append.1 hnodup).2.2 _ hbefore _ hroute rfl

/-- The joins of routes in totals. -/
def totalsJoins (t : Target) (routes : List Route) : List Join :=
  routes.filterMap (t.join totalsStem)

/-- Each route is joined under its own name. -/
theorem aliasNames_totalsJoins {routes : List Route} (hroutes : ∀ route ∈ routes, route ≠ []) :
    (t.totalsJoins routes).map (·.aliasName) = routes.map (·.aliasName totalsStem) := by
  induction routes with
  | nil => rfl
  | cons route routes ih =>
      obtain ⟨hop, _, hjoin⟩ :=
        join_of_ne_nil (t := t) totalsStem (hroutes route List.mem_cons_self)
      rw [totalsJoins, List.filterMap_cons_some hjoin, List.map_cons, List.map_cons]
      exact congrArg _ (ih fun route' hroute' => hroutes route' (List.mem_cons_of_mem _ hroute'))

/-- The rows that totals are computed over: what the joins of their paths make of the rows that the
filter keeps. -/
theorem map_row_found_ungrouped (hselection : t.selection filter = .ok selection)
    (arguments : List (Metric × Option Expr))
    (hnodup : (t.ungrouped selection paths arguments).names.Nodup) :
    ((t.ungrouped selection paths arguments).found engine db).map Scope.row =
      ((((joined engine db t.resource.storage selection.joins).filter
        (selection.restriction.keeps engine db ·)).map Scope.row).flatMap
          (extend engine db (t.totalsJoins (t.routesUsed paths)))) :=
  Select.map_row_found_extend rfl (restriction_resolves hselection (List.Subset.refl _)) hnodup

/-- Totals of further paths are computed over what further joins make of the joined rows. -/
theorem map_row_found_further (hselection : t.selection filter = .ok selection)
    (hpaths : paths ⊆ paths') (hapart : t.TotalsNamesApart filter paths')
    (arguments arguments' : List (Metric × Option Expr)) :
    ∃ added : List Route,
      (∀ route ∈ added, route ∈ t.routesUsed paths' ∧ route ∉ t.routesUsed paths) ∧
      (∀ route, route = [] ∨ route ∈ t.routesUsed paths →
        t.tableOf totalsStem route ∉ (t.totalsJoins added).map (·.aliasName)) ∧
      (((t.ungrouped selection paths' arguments').found engine db).map Scope.row).Perm
        ((((t.ungrouped selection paths arguments).found engine db).map Scope.row).flatMap
          (extend engine db (t.totalsJoins added))) := by
  obtain ⟨added, hadded, hperm, hfurther⟩ := t.exists_further_routes hpaths
  have hnonempty (paths : List Path) : ∀ route ∈ t.routesUsed paths, route ≠ [] :=
    fun route hroute => (mem_routesUsed.1 hroute).1
  have hresolve (paths : List Path) :
      Join.Resolve [t.resource.storage] (t.totalsJoins (t.routesUsed paths)) :=
    (resolve_of_isOrdered (t.isOrdered_routesUsed paths)).1
  have hjoins : (t.totalsJoins (t.routesUsed paths')).Perm
      (t.totalsJoins (t.routesUsed paths) ++ t.totalsJoins added) := by
    rw [totalsJoins, totalsJoins, totalsJoins, ← List.filterMap_append]
    exact hperm.filterMap _
  have hnodup' : (t.ungrouped selection paths' arguments').names.Nodup := by
    rw [names_ungrouped hselection]
    exact hapart.1
  -- The names of the further joins come after all others.
  have hnames (paths : List Path) (arguments : List (Metric × Option Expr)) :
      (t.ungrouped selection paths arguments).names = t.resource.storage ::
        (selection.joins.map (·.aliasName) ++
          (t.totalsJoins (t.routesUsed paths)).map (·.aliasName)) := by
    rw [Select.names, ungrouped, List.map_append]
    rfl
  have hnodup : ((t.ungrouped selection paths arguments).names ++
      (t.totalsJoins added).map (·.aliasName)).Nodup := by
    have haliases := hjoins.map (·.aliasName)
    rw [List.map_append] at haliases
    refine (List.Perm.nodup_iff ?_).1 hnodup'
    rw [hnames, hnames, List.cons_append, List.append_assoc]
    exact (haliases.append_left _).cons _
  refine ⟨added, hfurther, fun route hroute hmem => ?_, ?_⟩
  · refine (List.nodup_append.1 hnodup).2.2 _ ?_ _ hmem rfl
    rw [hnames, aliasNames_totalsJoins (hnonempty paths)]
    exact List.cons_subset_cons _ (List.subset_append_right _ _) (tableOf_mem hroute)
  · rw [map_row_found_ungrouped hselection arguments' hnodup',
      map_row_found_ungrouped hselection arguments (List.nodup_append.1 hnodup).1,
      List.flatMap_assoc]
    refine List.Perm.flatMap_left _ fun view _ => ?_
    rw [← extend_append]
    refine extend_perm hjoins ?_ (hresolve paths') ?_ view
    · rw [hnames] at hnodup'
      exact hnodup'.sublist ((List.sublist_append_right _ _).cons_cons _)
    · rw [totalsJoins, totalsJoins, ← List.filterMap_append, ← hadded]
      exact hresolve (paths ++ paths')

/-- What a metric is computed of, as far as it can be compiled. -/
def argumentOf (t : Target) (m : Metric) : Option Expr :=
  match t.metricArgument m with
  | .ok found => found.2
  | .error _ => none

theorem arguments_eq_map {metrics : List Metric} {arguments : List (Metric × Option Expr)}
    (harguments : metrics.mapM t.metricArgument = .ok arguments) :
    arguments = metrics.map fun m => (m, t.argumentOf m) := by
  rw [← List.map_id arguments]
  refine Result.map_eq_of_mapM_eq_ok (fun m found hfound => ?_) harguments
  rw [argumentOf, hfound, ← (metricArgument_eq_ok hfound).1]
  rfl

/-- The value of a metric in totals without groups. -/
def valueOf (t : Target) (engine : Engine) (db : Database) (selection : Selection)
    (metrics : List Metric) (arguments : List (Metric × Option Expr)) (m : Metric) : Datum :=
  let paths := metrics.filterMap (·.path)
  let found := (t.ungrouped selection paths arguments).found engine db
  engine.eval (found.map Scope.env) (found.headD []).env
    (metricExpr (t.totalsKey paths) m.function (t.argumentOf m))

/-- The name of the aggregate that computes a function. -/
def aggregateName : MetricFunction → String
  | .count => "COUNT"
  | .sum => "SUM"
  | .avg => "AVG"
  | .min => "MIN"
  | .max => "MAX"

/-- A metric of a column is an aggregate of the values that the column has in the rows. -/
theorem eval_metricExpr_column (key : Option Expr) (f : MetricFunction) (table name : String)
    (scopes : List Scope) (env : Env) :
    engine.eval (scopes.map Scope.env) env (metricExpr key f (some (.column table name))) =
      engine.aggregate (aggregateName f)
        ((scopes.map Scope.row).map fun view => [view table name]) := by
  rw [List.map_map]
  cases f <;>
    · rw [metricExpr, Engine.eval, if_pos (by decide), List.map_map]
      rfl

/-- A metric keeps its value next to others: it is the least or the greatest value of an attribute;
or the tables have keys, and it is a plain count by a key of one column, or the paths of the others
go through no further relation to many rows. -/
def Undisturbed (t : Target) (engine : Engine) (db : Database) (paths paths' : List Path)
    (m : Metric) : Prop :=
  m.path.isSome = true ∧ (m.function = .min ∨ m.function = .max) ∨
    t.HasKeys engine db ∧ (m = ⟨.count, none⟩ ∧ t.resource.primaryKey.length = 1 ∨
      ∀ route ∈ t.routesUsed paths', route.isToMany = true → route ∈ t.routesUsed paths)

/-- What a metric without a path is computed of, and one with a path. -/
theorem argumentOf_eq {m : Metric} (hargument : t.metricArgument m = .ok (m, t.argumentOf m)) :
    match m.path with
    | none => t.argumentOf m = none
    | some path =>
      ∃ name, t.argumentOf m = some (.column (t.tableOf totalsStem (t.routeOf path)) name) := by
  have hfound := (metricArgument_eq_ok hargument).2
  cases hpath : m.path with
  | none =>
      rw [hpath] at hfound
      exact hfound
  | some path =>
      rw [hpath] at hfound
      exact hfound.2

theorem metricArgument_of_mapM {metrics : List Metric} {arguments : List (Metric × Option Expr)}
    (harguments : metrics.mapM t.metricArgument = .ok arguments) {m : Metric} (hm : m ∈ metrics) :
    t.metricArgument m = .ok (m, t.argumentOf m) := by
  obtain ⟨found, _, hfound⟩ := Result.mapM_eq_ok_mem harguments hm
  have hsame : found = (m, t.argumentOf m) :=
    Prod.ext (metricArgument_eq_ok hfound).1 (by rw [argumentOf, hfound])
  rw [← hsame]
  exact hfound

/-- Without relations to many rows beyond those of the first metrics, further metrics join one row
each. -/
theorem isDirect_of_further {metrics : List Metric} {arguments : List (Metric × Option Expr)}
    (harguments : metrics.mapM t.metricArgument = .ok arguments) {added : List Route}
    (hadded : ∀ route ∈ added, route ∈ t.routesUsed (metrics.filterMap (·.path)))
    (hone : ∀ route ∈ added, route.isToMany = false) : ∀ route ∈ added, t.IsDirect route := by
  intro route hroute
  obtain ⟨hnonempty, path, hpath, hbegins⟩ := mem_routesUsed.1 (hadded route hroute)
  exact isDirect_of_prefix hnonempty hbegins (hone route hroute)
    (separate_of_arguments harguments path hpath)

/-- An undisturbed metric has the same value over the rows of further metrics. -/
theorem valueOf_eq (hlawful : engine.IsLawful) (haggregates : engine.AggregatesValues)
    (hselection : t.selection filter = .ok selection) {metrics metrics' : List Metric}
    {arguments arguments' : List (Metric × Option Expr)}
    (harguments : metrics.mapM t.metricArgument = .ok arguments)
    (harguments' : metrics'.mapM t.metricArgument = .ok arguments') (hmore : metrics ⊆ metrics')
    (hapart : t.TotalsNamesApart filter (metrics'.filterMap (·.path))) {m : Metric}
    (hm : m ∈ metrics) (hundisturbed : t.Undisturbed engine db (metrics.filterMap (·.path))
      (metrics'.filterMap (·.path)) m) :
    t.valueOf engine db selection metrics arguments m =
      t.valueOf engine db selection metrics' arguments' m := by
  have hpaths : metrics.filterMap (·.path) ⊆ metrics'.filterMap (·.path) :=
    List.filterMap_subset _ hmore
  obtain ⟨added, hadded, hapart, hviews⟩ :=
    map_row_found_further hselection hpaths hapart arguments arguments'
  have hsingle (hkeys : t.HasKeys engine db) (hmany : ∀ route ∈ t.routesUsed
      (metrics'.filterMap (·.path)), route.isToMany = true →
        route ∈ t.routesUsed (metrics.filterMap (·.path))) :
      ∀ j ∈ t.totalsJoins added, j.IsSingle engine db :=
    isSingle_of_isDirect hlawful hkeys
      (isDirect_of_further harguments' (fun route hroute => (hadded route hroute).1)
        fun route hroute => Bool.eq_false_iff.2 fun htrue =>
          (hadded route hroute).2 (hmany route (hadded route hroute).1 htrue))
  have hargument := argumentOf_eq (metricArgument_of_mapM harguments hm)
  cases hpath : m.path with
  | some path =>
      rw [hpath] at hargument
      obtain ⟨name, hname⟩ := hargument
      have htable := hapart (t.routeOf path) (t.routeOf_mem_routesUsed
        (List.mem_filterMap.2 ⟨m, hm, hpath⟩))
      rw [valueOf, valueOf, hname, eval_metricExpr_column, eval_metricExpr_column]
      rcases hundisturbed with ⟨_, hextreme⟩ | ⟨hkeys, ⟨rfl, _⟩ | hmany⟩
      · exact haggregates.extreme (hextreme.imp (congrArg aggregateName) (congrArg aggregateName))
          fun x => (mem_map_column_iff htable hviews (fun r => [r name]) x).symm
      · cases hpath
      · exact haggregates.perm
          (map_column_of_isSingle (hsingle hkeys hmany) htable hviews fun r => [r name]).symm
  | none =>
      rw [hpath] at hargument
      obtain ⟨hsome, _⟩ | ⟨hkeys, hrest⟩ := hundisturbed
      · rw [hpath] at hsome
        cases hsome
      by_cases hcounted : m = ⟨.count, none⟩ ∧ t.resource.primaryKey.length = 1
      · obtain ⟨rfl, hlength⟩ := hcounted
        rw [valueOf, valueOf, hargument,
          eval_count hlawful hkeys hselection harguments (.inl hlength),
          eval_count hlawful hkeys hselection harguments' (.inl hlength)]
      · have hmany := hrest.resolve_left hcounted
        have hlength := (map_column_of_isSingle (hsingle hkeys hmany) (hapart [] (.inl rfl)) hviews
          id).length_eq
        simp only [List.length_map] at hlength
        have hrows (paths : List Path) :
            metricExpr (t.totalsKey paths) m.function none = .countRows := by
          obtain ⟨function, path⟩ := m
          obtain rfl : path = none := hpath
          cases function with
          | count =>
              have hkey : t.totalsKey paths = none := by
                rw [totalsKey_eq]
                split
                · rename_i column hcolumn
                  exact absurd ⟨rfl, by rw [hcolumn]; rfl⟩ hcounted
                · rfl
              rw [hkey]
              rfl
          | _ => rfl
        rw [valueOf, valueOf, hargument, hrows, hrows, Engine.eval, Engine.eval, List.length_map,
          List.length_map, hlength]

/-- Where the names of totals are different, those of totals of fewer paths are. -/
theorem TotalsNamesApart.of_subset (hpaths : paths ⊆ paths')
    (hapart : t.TotalsNamesApart filter paths') : t.TotalsNamesApart filter paths := by
  obtain ⟨added, _, hperm, _⟩ := t.exists_further_routes hpaths
  have hnames := (hperm.map (·.aliasName totalsStem)).append_left
    ((t.routesUsed (t.joinedPaths filter)).map (·.aliasName Joins.defaultStem))
  rw [List.map_append, ← List.append_assoc] at hnames
  refine ⟨?_, hapart.2⟩
  exact ((hnames.cons _).nodup_iff.1 hapart.1).sublist ((List.sublist_append_left _ _).cons_cons _)

/-- The row of totals without groups. -/
theorem output_ungrouped {metrics : List Metric} {arguments : List (Metric × Option Expr)}
    (harguments : metrics.mapM t.metricArgument = .ok arguments) :
    let s := t.ungrouped selection (metrics.filterMap (·.path)) arguments
    s.output engine (s.found engine db) =
      metrics.map fun m => .value m.label (t.valueOf engine db selection metrics arguments m) := by
  intro s
  have hcolumns : s.columns = metrics.map fun m => .named
      (metricExpr (t.totalsKey (metrics.filterMap (·.path))) m.function (t.argumentOf m))
      m.label := by
    show arguments.map _ = _
    rw [arguments_eq_map harguments, List.map_map]
    rfl
  rw [Select.output, hcolumns, List.flatMap_map]
  exact List.flatMap_pure_eq_map _ _

/-- Totals without groups are one select. It returns one row of the values of the metrics, if the
names of its tables are different. -/
theorem totals_of_ungrouped {query : Query} (hcompile : t.compile request = .ok query)
    (hungrouped : request.aggregate.groupBy = []) (hmetrics : request.aggregate.metrics ≠ []) :
    ∃ selection arguments totals,
      t.selection request.filter = .ok selection ∧
      request.aggregate.metrics.mapM t.metricArgument = .ok arguments ∧
      query.totals = some totals ∧
      totals.statement = .select (t.ungrouped selection request.aggregate.paths arguments) ∧
      ∀ (engine : Engine) (db : Database) rows,
        (t.ungrouped selection request.aggregate.paths arguments).Returns engine db rows ↔
          t.TotalsNamesApart request.filter request.aggregate.paths ∧
            rows = [request.aggregate.metrics.map fun m => .value m.label
              (t.valueOf engine db selection request.aggregate.metrics arguments m)] := by
  obtain ⟨selection, _, totals, _, hselection, -, htotals, -, rfl⟩ :=
    compile_eq_ok_iff.1 hcompile
  obtain ⟨arguments, harguments, rfl⟩ := totals_eq_ok hmetrics hungrouped htotals
  have hpaths := paths_of_ungrouped hungrouped
  have haggregates : (t.ungrouped selection request.aggregate.paths arguments).columns.any
      Projection.isAggregate = true := by
    obtain ⟨m, hm⟩ := List.exists_mem_of_ne_nil _ hmetrics
    obtain ⟨found, hfound, _⟩ := Result.mapM_eq_ok_mem harguments hm
    exact List.any_eq_true.2 ⟨_, List.mem_map_of_mem hfound, isAggregate_metricExpr _ _ _⟩
  refine ⟨selection, arguments, _, hselection, harguments, rfl, rfl, fun engine db rows => ?_⟩
  rw [← ungrouped_distinct_iff hselection _ arguments]
  rw [hpaths] at haggregates ⊢
  rw [← output_ungrouped harguments]
  exact Select.returns_aggregates_iff
    (ungrouped_resolves hselection harguments (List.Subset.refl _)) haggregates rfl rfl rfl rows

/-- Of two requests for totals without groups that have the same filter, let the second ask for all
metrics of the first and for further ones. Where its statement returns a row, the statement of the
first does, and every metric of the first that is not disturbed has the same value in both. -/
theorem metrics_keep_values (hlawful : engine.IsLawful) (haggregates : engine.AggregatesValues)
    {request' : Request} {query query' : Query} (hcompile : t.compile request = .ok query)
    (hcompile' : t.compile request' = .ok query') (hfilter : request'.filter = request.filter)
    (hungrouped : request.aggregate.groupBy = []) (hungrouped' : request'.aggregate.groupBy = [])
    (hmetrics : request.aggregate.metrics ≠ [])
    (hmore : request.aggregate.metrics ⊆ request'.aggregate.metrics) :
    ∃ totals totals' s s', query.totals = some totals ∧ query'.totals = some totals' ∧
      totals.statement = .select s ∧ totals'.statement = .select s' ∧
      ((∃ rows', s'.Returns engine db rows') ↔
        t.TotalsNamesApart request.filter request'.aggregate.paths) ∧
      ∀ rows', s'.Returns engine db rows' → ∃ value value' : Metric → Datum,
        rows' = [request'.aggregate.metrics.map fun m => .value m.label (value' m)] ∧
        (∀ rows, s.Returns engine db rows ↔
          rows = [request.aggregate.metrics.map fun m => .value m.label (value m)]) ∧
        ∀ m ∈ request.aggregate.metrics,
          t.Undisturbed engine db request.aggregate.paths request'.aggregate.paths m →
            value m = value' m := by
  have hmetrics' : request'.aggregate.metrics ≠ [] := fun hnil => by
    rw [hnil] at hmore
    exact hmetrics (List.subset_nil.1 hmore)
  obtain ⟨selection, arguments, totals, hselection, harguments, htotals, hstatement, hreturns⟩ :=
    totals_of_ungrouped hcompile hungrouped hmetrics
  obtain ⟨selection', arguments', totals', hselection', harguments', htotals', hstatement',
    hreturns'⟩ := totals_of_ungrouped hcompile' hungrouped' hmetrics'
  rw [hfilter] at hselection' hreturns'
  obtain rfl : selection = selection' := Except.ok.inj (hselection.symm.trans hselection')
  refine ⟨totals, totals', _, _, htotals, htotals', hstatement, hstatement', ?_, ?_⟩
  · exact ⟨fun ⟨rows', h⟩ => ((hreturns' engine db rows').1 h).1,
      fun hapart => ⟨_, (hreturns' engine db _).2 ⟨hapart, rfl⟩⟩⟩
  · intro rows' hrows'
    obtain ⟨hapart, rfl⟩ := (hreturns' engine db rows').1 hrows'
    rw [paths_of_ungrouped hungrouped] at hreturns ⊢
    rw [paths_of_ungrouped hungrouped'] at hapart ⊢
    refine ⟨_, _, rfl, fun rows => (hreturns engine db rows).trans (and_iff_right ?_),
      fun m hm hundisturbed => ?_⟩
    · exact hapart.of_subset (List.filterMap_subset _ hmore)
    · exact valueOf_eq hlawful haggregates hselection harguments harguments' hmore hapart hm
        hundisturbed

end Target

section Numbers

/-- The numbers among the arguments of an aggregate. -/
def numbersOf (arguments : List (List Datum)) : List Rat :=
  arguments.filterMap fun
    | [.number q] => some q
    | _ => none

/-- A database that computes aggregates of numbers. -/
def Engine.counting : Engine := { Engine.plain with
  aggregate := fun function arguments =>
    let numbers := numbersOf arguments
    if function = "COUNT" then .number (arguments.filter (· != [.null])).length
    else if function = "MIN" then (numbers.min?.map .number).getD .null
    else if function = "MAX" then (numbers.max?.map .number).getD .null
    else if numbers.isEmpty then .null
    else if function = "SUM" then .number numbers.sum
    else if function = "AVG" then .number (numbers.sum / numbers.length)
    else .null }

theorem Engine.isLawful_counting : counting.IsLawful where
  refl := isLawful_plain.refl
  symm := isLawful_plain.symm
  trans := isLawful_plain.trans

/-- The least number and the greatest one are known from which numbers there are. -/
theorem extremes_congr {xs ys : List Rat} (hmem : ∀ q, q ∈ xs ↔ q ∈ ys) :
    xs.min? = ys.min? ∧ xs.max? = ys.max? := by
  have : Std.LawfulOrderMax Rat := .of_max_le_iff (by grind) (by grind)
  constructor <;> refine Option.ext fun q => ?_
  · simp only [List.min?_eq_some_iff, hmem]
  · simp only [List.max?_eq_some_iff, hmem]

theorem Engine.aggregatesValues_counting : counting.AggregatesValues where
  perm := by
    intro function xs ys hperm
    have hnumbers : (numbersOf xs).Perm (numbersOf ys) := hperm.filterMap _
    obtain ⟨hmin, hmax⟩ := extremes_congr fun q => hnumbers.mem_iff
    simp only [counting, hmin, hmax, hnumbers.sum_eq, hnumbers.length_eq, hnumbers.isEmpty_eq,
      (hperm.filter _).length_eq]
  extreme := by
    intro function xs ys hfunction hmem
    have hnumbers (q : Rat) : q ∈ numbersOf xs ↔ q ∈ numbersOf ys := by
      simp only [numbersOf, List.mem_filterMap, hmem]
    obtain ⟨hmin, hmax⟩ := extremes_congr hnumbers
    rcases hfunction with rfl | rfl
    · simp [counting, hmin]
    · simp [counting, hmax]

end Numbers

namespace Shop

/-- Products with a price. -/
def priced : Resource := { products "products" with
  attributes := [{ name := "name", kind := .string }, { name := "price", kind := .numeric }] }

theorem hasKeys_priced : (shopOf priced).HasKeys Engine.counting (rows "products") := by
  obtain ⟨hunique, hpresent⟩ := (hasKeys (show "products" ≠ "categories" by decide)).primary
  exact ⟨⟨hunique, hpresent⟩, fun _ _ hhop hone _ => isUnique_of_walk hhop rfl rfl rfl hone⟩

/-- Totals of some metrics. -/
def asking (metrics : List Metric) : Request where
  aggregate := { metrics }

def averageRating : Metric := ⟨.avg, some ⟨["reviews"], "rating"⟩⟩

/-- How many products there are and what the dearest costs does not depend on whether their average
rating is asked for. -/
theorem metrics_keep_values_rated :
    ∃ query query' totals totals' s s' x y z,
      (shopOf priced).compile (asking [⟨.count, none⟩, ⟨.max, some ⟨[], "price"⟩⟩]) = .ok query ∧
      (shopOf priced).compile
        (asking [⟨.count, none⟩, ⟨.max, some ⟨[], "price"⟩⟩, averageRating]) = .ok query' ∧
      query.totals = some totals ∧ query'.totals = some totals' ∧
      totals.statement = .select s ∧ totals'.statement = .select s' ∧
      s.Returns Engine.counting (rows "products") [[.value "count" x, .value "max_price" y]] ∧
      s'.Returns Engine.counting (rows "products")
        [[.value "count" x, .value "max_price" y, .value "avg_reviews__rating" z]] := by
  obtain ⟨totals, totals', s, s', htotals, htotals', hs, hs', hreturns, hvalues⟩ :=
    @Target.metrics_keep_values _ (rows "products") _ _ Engine.isLawful_counting
      Engine.aggregatesValues_counting _ _ _
      (show (shopOf priced).compile
        (asking [⟨.count, none⟩, ⟨.max, some ⟨[], "price"⟩⟩]) = _ from rfl)
      (show (shopOf priced).compile
        (asking [⟨.count, none⟩, ⟨.max, some ⟨[], "price"⟩⟩, averageRating]) = _ from rfl)
      rfl rfl rfl (by decide) (by decide)
  obtain ⟨rows', hrows'⟩ := hreturns.2 (by decide +kernel)
  obtain ⟨value, value', rfl, hrows, hsame⟩ := hvalues rows' hrows'
  have hcount : value ⟨.count, none⟩ = value' ⟨.count, none⟩ :=
    hsame _ (by decide) (.inr ⟨hasKeys_priced, .inl ⟨rfl, rfl⟩⟩)
  have hdearest : value ⟨.max, some ⟨[], "price"⟩⟩ = value' ⟨.max, some ⟨[], "price"⟩⟩ :=
    hsame _ (by decide) (.inl ⟨rfl, .inr rfl⟩)
  refine ⟨_, _, totals, totals', s, s', _, _, value' averageRating, rfl, rfl, htotals, htotals',
    hs, hs', (hrows _).2 rfl, ?_⟩
  rw [hcount, hdearest]
  exact hrows'

/-- The prices of all products sum up to one. Next to the average rating the same sum is two: the
lamp has two reviews. -/
theorem sum_changes_next_to_rating :
    ∃ query query' totals totals' s s', priced.check = .ok () ∧
      (asking [⟨.sum, some ⟨[], "price"⟩⟩, averageRating]).validate (shopOf priced).registry
        priced = .ok () ∧
      (shopOf priced).compile (asking [⟨.sum, some ⟨[], "price"⟩⟩]) = .ok query ∧
      (shopOf priced).compile (asking [⟨.sum, some ⟨[], "price"⟩⟩, averageRating]) =
        .ok query' ∧
      query.totals = some totals ∧ query'.totals = some totals' ∧
      totals.statement = .select s ∧ totals'.statement = .select s' ∧
      (shopOf priced).HasKeys Engine.counting (rows "products") ∧ Engine.counting.IsLawful ∧
      Engine.counting.AggregatesValues ∧
      s.Returns Engine.counting (rows "products") [[.value "sum_price" (.number 1)]] ∧
      s'.Returns Engine.counting (rows "products")
        [[.value "sum_price" (.number 2), .value "avg_reviews__rating" (.number (9 / 2))]] := by
  obtain ⟨_, arguments, totals, hselection, harguments, htotals, hs, hreturns⟩ :=
    Target.totals_of_ungrouped
      (show (shopOf priced).compile (asking [⟨.sum, some ⟨[], "price"⟩⟩]) = _ from rfl) rfl
      (by decide)
  obtain ⟨_, arguments', totals', hselection', harguments', htotals', hs', hreturns'⟩ :=
    Target.totals_of_ungrouped
      (show (shopOf priced).compile (asking [⟨.sum, some ⟨[], "price"⟩⟩, averageRating]) = _
        from rfl) rfl (by decide)
  cases hselection
  cases hselection'
  cases harguments
  cases harguments'
  refine ⟨_, _, totals, totals', _, _, rfl, rfl, rfl, rfl, htotals, htotals', hs, hs',
    hasKeys_priced, Engine.isLawful_counting, Engine.aggregatesValues_counting,
    (hreturns _ _ _).2 ⟨by decide +kernel, ?_⟩, (hreturns' _ _ _).2 ⟨by decide +kernel, ?_⟩⟩ <;>
  · simp only [asking, List.map_cons, List.map_nil, List.cons.injEq, Output.value.injEq, and_true]
    decide +kernel

end Shop
end Listing.Sql

/-
# Pages and counts repeat no row

The page of a request, without limit and offset, returns the rows of the listed table that its
filter finds, each once and in some arrangement; the count returns how many these are. A filter
through a relation to many rows is moved into a select of keys, and an order adds joins to the page
alone, but neither changes what is returned.

The one exception is a clash of names. The listed table is called by its own name, and every join by
an alias that is made of the relations it walks; nothing keeps the two apart. A statement in which
two tables have the same name is refused.
-/
import Listing.Proofs.JoinedRows
import Listing.Proofs.JoinOrder
import Listing.Sql.Query

namespace Listing.Sql

namespace Restriction

/-- The restriction of a condition that may be missing. -/
def ofCondition : Option Expr → Restriction
  | some condition => .holds condition
  | none => .nothing

variable {engine : Engine} {db : Database}

theorem keeps_ofCondition (condition : Option Expr) (scope : Scope) :
    (ofCondition condition).keeps engine db scope = engine.keepsScope condition scope := by
  cases condition <;> rfl

/-- A row has the key of one that a select of keys finds exactly if the select finds the row
itself. -/
theorem keeps_keyAmong (hlawful : engine.IsLawful) {query : KeyQuery}
    (hkey : engine.IsKey query.key (db query.table)) {r : Listing.Record}
    (hr : r ∈ db query.table) {scope : Scope} (hscope : scope.row query.table = r) :
    (keyAmong query).keeps engine db scope =
      (expandAll engine db query.joins [(query.table, r)]).any
        (engine.keepsScope query.condition) := by
  rw [keeps, hscope, Bool.eq_iff_iff, List.any_eq_true, List.any_eq_true]
  constructor
  · rintro ⟨found, hfound, hsame⟩
    obtain ⟨hjoined, hkeeps⟩ := List.mem_filter.1 hfound
    obtain ⟨r', hr', hfound⟩ := List.mem_flatMap.1 hjoined
    rw [row_of_mem_expandAll hfound] at hsame
    obtain rfl := hkey.unique.eq_of_sameKey hlawful hr hr' hsame
    exact ⟨found, hfound, hkeeps⟩
  · rintro ⟨found, hfound, hkeeps⟩
    refine ⟨found, List.mem_filter.2 ⟨List.mem_flatMap.2 ⟨r, hr, hfound⟩, hkeeps⟩, ?_⟩
    rw [row_of_mem_expandAll hfound]
    exact hkey.sameKey_self hlawful hr

end Restriction

namespace Target

variable {t : Target} {engine : Engine} {db : Database} {request : Request}
  {filter : Option Filter} {selection : Selection}

/-- A route that can be walked through relations to one row, none of them embedded. -/
structure IsDirect (t : Target) (route : Route) : Prop where
  nonempty : route ≠ []
  walked : ∃ names, route <+: (t.registry.walk t.resource names).1
  one : ∀ hop ∈ route, hop.relation.many = false
  separate : ∀ hop ∈ route, hop.relation.embedded = false

/-- The joins of such routes find exactly one row. -/
theorem isSingle_of_isDirect (hlawful : engine.IsLawful) (hkeys : t.HasKeys engine db)
    {routes : List Route} (hroutes : ∀ route ∈ routes, t.IsDirect route) {stem : String} :
    ∀ j ∈ routes.filterMap (t.join stem), j.IsSingle engine db := by
  intro j hj
  obtain ⟨route, hroute, hjoin⟩ := List.mem_filterMap.1 hj
  obtain ⟨hnonempty, ⟨names, hwalked⟩, hone, hseparate⟩ := hroutes route hroute
  obtain ⟨hop, hhop, heq⟩ := join_of_ne_nil (t := t) stem hnonempty
  rw [heq] at hjoin
  cases hjoin
  exact Join.isSingle_of_isUnique hlawful
    (hkeys.toOne names hop (hwalked.subset hhop) (hone hop hhop) (hseparate hop hhop))

/-- A join makes of what was joined so far what following its route does. -/
theorem expand_eq_follow {route : Route} {j : Join}
    (hjoin : t.join Joins.defaultStem route = some j) (scope : Scope) :
    j.expand engine db scope = t.follow engine db route scope := by
  obtain ⟨hop, hlast, heq⟩ := Option.map_eq_some_iff.1 hjoin
  have hrows : j.matching engine db scope = relatedRows engine db hop
      (scope.row (t.tableOf Joins.defaultStem route.dropLast)) := by
    rw [← heq]
    rfl
  have halias : j.aliasName = route.aliasName Joins.defaultStem := by
    rw [← heq]
  rw [follow, hlast, Join.expand, hrows, halias]
  dsimp only
  cases relatedRows engine db hop
    (scope.row (t.tableOf Joins.defaultStem route.dropLast)) <;> rfl

/-- Joins make of a row what following their routes does. -/
theorem expandAll_joinsOf (paths : List Path) (scope : Scope) :
    expandAll engine db (t.joinsOf (t.routesOf paths)) scope =
      t.followAll engine db (t.routesUsed paths) scope := by
  rw [joinsOf_routesOf]
  induction t.routesUsed paths generalizing scope with
  | nil => rfl
  | cons route routes ih =>
      cases hjoin : t.join Joins.defaultStem route with
      | none =>
          have hlast : route.getLast? = none := Option.map_eq_none_iff.1 hjoin
          rw [List.filterMap_cons_none hjoin, followAll, follow, hlast, ih]
          simp
      | some j =>
          rw [List.filterMap_cons_some hjoin, expandAll, followAll, expand_eq_follow hjoin]
          exact List.flatMap_congr fun next _ => ih next

/-- What is known of the condition of a filter that may be missing. -/
theorem conditions_isOver {condition : Option Expr}
    (hcondition : filter.mapM (t.condition Joins.defaultStem) = .ok condition) :
    (∀ e ∈ condition, e.IsOver (t.resource.storage ::
      (t.joinsOf (t.routesOf (pathsOf filter))).map (·.aliasName))) ∧
    ∀ path ∈ pathsOf filter, ∀ hop ∈ t.routeOf path, hop.relation.embedded = false := by
  cases filter with
  | none =>
      cases hcondition
      exact ⟨by simp, by simp [pathsOf]⟩
  | some f =>
      obtain ⟨e, he, hrest⟩ := Result.bind_eq_ok.1 hcondition
      cases hrest
      obtain ⟨hover, hembedded⟩ := condition_isOver he List.mem_cons_self fun path hpath =>
        tableOf_mem_joinsOf (show path ∈ pathsOf (some f) from hpath)
      exact ⟨by simpa using hover, hembedded⟩

/-- The paths whose routes a selection joins: none if its filter is moved into a select of keys. -/
def joinedPaths (t : Target) (filter : Option Filter) : List Path :=
  if t.reachesMany filter then [] else pathsOf filter

/-- What restricts the rows of a selection. -/
def restrictionOf (t : Target) (filter : Option Filter) (condition : Option Expr) : Restriction :=
  if t.reachesMany filter then
    .keyAmong {
      table := t.resource.storage
      key := t.resource.primaryKey
      joins := t.joinsOf (t.routesOf (pathsOf filter))
      condition }
  else .ofCondition condition

/-- A selection joins what its filter uses, or else moves it into a select of keys. -/
theorem selection_eq_ok (hselection : t.selection filter = .ok selection) :
    ∃ condition, filter.mapM (t.condition Joins.defaultStem) = .ok condition ∧ selection = {
      joins := t.joinsOf (t.routesOf (t.joinedPaths filter))
      restriction := t.restrictionOf filter condition
      routes := t.routesOf (t.joinedPaths filter) } := by
  obtain ⟨condition, hcondition, hrest⟩ := Result.bind_eq_ok.1 hselection
  refine ⟨condition, hcondition, ?_⟩
  have hmany : ((t.noJoins Joins.defaultStem).addPaths t.registry
      ((filter.map Filter.paths).getD [])).hasToMany = t.reachesMany filter :=
    hasToMany_routesOf filter
  dsimp only at hrest
  rw [hmany] at hrest
  rw [joinedPaths, restrictionOf]
  split at hrest <;> rename_i hreaches
  · cases hrest
    rw [if_pos hreaches, if_pos hreaches]
    rfl
  · cases hrest
    rw [if_neg hreaches, if_neg hreaches]
    cases condition <;> rfl

/-- The term of an order names the column at the end of its path, which is reached through
relations to one row. -/
theorem orderTerm_eq_ok {item : OrderItem} {term : OrderTerm}
    (hterm : t.orderTerm item = .ok term) :
    (∃ name, term.expr =
      .column (t.tableOf Joins.defaultStem (t.routeOf item.path)) name) ∧
    (∀ hop ∈ t.routeOf item.path, hop.relation.many = false) ∧
    ∀ hop ∈ t.routeOf item.path, hop.relation.embedded = false := by
  obtain ⟨located, hlocate, hrest⟩ := Result.bind_eq_ok.1 hterm
  have hroute : t.routeOf item.path = located.route := by
    rw [routeOf, Registry.walk_of_locate hlocate]
  split at hrest
  · cases hrest
  · rename_i hone
    obtain ⟨column, hcolumn, hterm⟩ := Result.bind_eq_ok.1 hrest
    cases hterm
    obtain ⟨hembedded, rfl⟩ := columnOf_eq_ok hcolumn
    rw [hroute]
    exact ⟨⟨_, rfl⟩, by simpa [Route.isToMany] using hone, hembedded⟩

/-- What a selection joins leads to one row. -/
theorem isDirect_of_joined (hselection : t.selection filter = .ok selection) :
    ∀ route ∈ t.routesUsed (t.joinedPaths filter), t.IsDirect route := by
  obtain ⟨condition, hcondition, _⟩ := selection_eq_ok hselection
  intro route hroute
  rw [joinedPaths] at hroute
  split at hroute
  · exact nomatch hroute
  · rename_i hone
    obtain ⟨hnonempty, path, hpath, hbegins⟩ := mem_routesUsed.1 hroute
    refine ⟨hnonempty, ⟨path.relations, hbegins⟩, ?_, ?_⟩
    · intro hop hhop
      rw [reachesMany, List.any_eq_true, not_exists] at hone
      have hroutes := not_and.1 (hone route) hroute
      rw [Route.isToMany, List.any_eq_true, not_exists] at hroutes
      exact Bool.eq_false_iff.2 (not_and.1 (hroutes hop) hhop)
    · intro hop hhop
      exact (conditions_isOver hcondition).2 path hpath hop (hbegins.subset hhop)

/-- What an order joins leads to one row. -/
theorem isDirect_of_order {terms : List OrderTerm}
    (horder : request.order.mapM t.orderTerm = .ok terms) :
    ∀ route ∈ t.routesUsed (request.order.map (·.path)), t.IsDirect route := by
  intro route hroute
  obtain ⟨hnonempty, path, hpath, hbegins⟩ := mem_routesUsed.1 hroute
  obtain ⟨item, hitem, rfl⟩ := List.mem_map.1 hpath
  obtain ⟨term, _, hterm⟩ := Result.mapM_eq_ok_mem horder hitem
  obtain ⟨_, hone, hseparate⟩ := orderTerm_eq_ok hterm
  exact ⟨hnonempty, ⟨item.path.relations, hbegins⟩,
    fun hop hhop => hone hop (hbegins.subset hhop),
    fun hop hhop => hseparate hop (hbegins.subset hhop)⟩

theorem selection_isSingle (hlawful : engine.IsLawful) (hkeys : t.HasKeys engine db)
    (hselection : t.selection filter = .ok selection) :
    ∀ j ∈ selection.joins, j.IsSingle engine db := by
  obtain ⟨_, _, rfl⟩ := selection_eq_ok hselection
  rw [joinsOf_routesOf]
  exact isSingle_of_isDirect hlawful hkeys (isDirect_of_joined hselection)

/-- A page has the joins of its selection and of its order. -/
theorem page_joins (terms : List OrderTerm) (hselection : t.selection filter = .ok selection) :
    (t.page selection request terms).joins =
      t.joinsOf (t.routesOf (t.joinedPaths filter ++ request.order.map (·.path))) := by
  obtain ⟨_, _, rfl⟩ := selection_eq_ok hselection
  rw [← routesOf_append]
  rfl

/-- The joins of a page come after those of its selection, and find exactly one row. -/
theorem page_joins_append (hlawful : engine.IsLawful) (hkeys : t.HasKeys engine db)
    {terms : List OrderTerm} (hselection : t.selection filter = .ok selection)
    (horder : request.order.mapM t.orderTerm = .ok terms) :
    ∃ more, (t.page selection request terms).joins = selection.joins ++ more ∧
      ∀ j ∈ more, j.IsSingle engine db := by
  obtain ⟨added, hadded, hsubset⟩ :=
    t.routesUsed_append (t.joinedPaths filter) (request.order.map (·.path))
  refine ⟨added.filterMap (t.join Joins.defaultStem), ?_, ?_⟩
  · rw [page_joins terms hselection, joinsOf_routesOf, hadded, List.filterMap_append,
      ← joinsOf_routesOf]
    obtain ⟨_, _, rfl⟩ := selection_eq_ok hselection
    rfl
  · exact isSingle_of_isDirect hlawful hkeys fun route hroute =>
      isDirect_of_order horder route (hsubset hroute)

/-- Whether a selection keeps what was joined to a row depends only on whether its filter finds the
row, whatever is joined after the selection. -/
theorem keeps_eq_finds (hlawful : engine.IsLawful) (hkeys : t.HasKeys engine db)
    (hselection : t.selection filter = .ok selection) (more : List Join) {r : Listing.Record}
    (hr : r ∈ db t.resource.storage) {scope : Scope}
    (hscope : scope ∈ expandAll engine db (selection.joins ++ more) [(t.resource.storage, r)]) :
    selection.restriction.keeps engine db scope = t.finds engine db filter r := by
  have hsingle := selection_isSingle hlawful hkeys hselection
  obtain ⟨condition, hcondition, rfl⟩ := selection_eq_ok hselection
  rw [finds, hcondition]
  dsimp only at hsingle hscope ⊢
  rw [← expandAll_joinsOf]
  rw [joinedPaths] at hsingle hscope
  rw [restrictionOf]
  split at hsingle <;> rename_i hreaches
  · rw [if_pos hreaches]
    exact Restriction.keeps_keyAmong hlawful hkeys.primary hr (row_of_mem_expandAll hscope)
  · rw [if_neg hreaches] at hscope ⊢
    -- The condition names only tables that the selection joins itself, so it is decided on the
    -- single scope that these make of the row, and what comes after cannot change it.
    obtain ⟨first, hfirst⟩ := expandAll_of_isSingle hsingle [(t.resource.storage, r)]
    obtain ⟨added, rfl, hnames⟩ := mem_expandAll (hfirst ▸ List.mem_singleton_self first)
    rw [expandAll_append, hfirst, List.flatMap_singleton] at hscope
    obtain ⟨rest, rfl, _⟩ := mem_expandAll hscope
    have hover := (conditions_isOver hcondition).1
    rw [← hnames] at hover
    rw [Restriction.keeps_ofCondition, Scope.keepsScope_append engine rest (by simp) hover,
      hfirst, List.any_cons, List.any_nil, Bool.or_false]

/-- The restriction of a selection refers to tables that its joins have. -/
theorem restriction_resolves (hselection : t.selection filter = .ok selection)
    {names : List String}
    (hnames : t.resource.storage :: selection.joins.map (·.aliasName) ⊆ names) :
    selection.restriction.Resolves names := by
  obtain ⟨condition, hcondition, rfl⟩ := selection_eq_ok hselection
  have hover := (conditions_isOver hcondition).1
  dsimp only at hnames ⊢
  rw [joinedPaths] at hnames
  rw [restrictionOf]
  split at hnames <;> rename_i hreaches
  · rw [if_pos hreaches]
    exact ⟨hnames List.mem_cons_self, resolve_joinsOf, hover⟩
  · rw [if_neg hreaches]
    cases condition with
    | none => trivial
    | some e => exact (hover e rfl).mono hnames

/-- A page refers to tables that it has. -/
theorem page_resolves {terms : List OrderTerm} (hselection : t.selection filter = .ok selection)
    (horder : request.order.mapM t.orderTerm = .ok terms) :
    (t.page selection request terms).Resolves := by
  have hroot : t.resource.storage ∈ (t.page selection request terms).names := List.mem_cons_self
  refine ⟨?_, restriction_resolves hselection ?_, ?_, by simp [page], ?_⟩
  · rw [page_joins terms hselection]
    exact resolve_joinsOf
  · rw [Select.names, page_joins terms hselection, aliasNames_joinsOf]
    obtain ⟨added, hadded, _⟩ :=
      t.routesUsed_append (t.joinedPaths filter) (request.order.map (·.path))
    obtain ⟨_, _, rfl⟩ := selection_eq_ok hselection
    rw [hadded, List.map_append, aliasNames_joinsOf]
    exact List.cons_subset_cons _ (List.subset_append_left _ _)
  · intro column hcolumn
    rw [List.mem_singleton.1 hcolumn]
    exact hroot
  · intro term hterm
    rw [page] at hterm
    dsimp only at hterm
    split at hterm
    · obtain ⟨column, _, rfl⟩ := List.mem_map.1 hterm
      exact Expr.isOver_column hroot
    · obtain ⟨item, hitem, hterm⟩ := Result.mem_of_mapM_eq_ok horder hterm
      obtain ⟨⟨name, hexpr⟩, _⟩ := orderTerm_eq_ok hterm
      rw [hexpr, Select.names, page_joins terms hselection]
      exact Expr.isOver_column (tableOf_mem_joinsOf
        (List.mem_append_right _ (List.mem_map.2 ⟨item, hitem, rfl⟩)))

/-- A count refers to tables that it has. -/
theorem count_resolves (hselection : t.selection filter = .ok selection) :
    (t.count selection).Resolves := by
  refine ⟨?_, restriction_resolves hselection (List.Subset.refl _), ?_, by simp [count],
    by simp [count]⟩
  · obtain ⟨_, _, rfl⟩ := selection_eq_ok hselection
    exact resolve_joinsOf
  · intro column hcolumn
    rw [List.mem_singleton.1 hcolumn]
    exact List.nil_subset _

/-- The tables of a select of keys have different names if those that its filter uses do. -/
theorem restriction_distinct_iff (hselection : t.selection filter = .ok selection) :
    selection.restriction.Distinct ↔
      (t.reachesMany filter = true → t.NamesApart (pathsOf filter)) := by
  obtain ⟨condition, _, rfl⟩ := selection_eq_ok hselection
  dsimp only
  rw [restrictionOf]
  split <;> rename_i hreaches
  · rw [Restriction.Distinct, KeyQuery.names, aliasNames_joinsOf]
    exact ⟨fun hnodup _ => hnodup, fun hnodup => hnodup hreaches⟩
  · cases condition <;> exact ⟨fun _ hmany => absurd hmany hreaches, fun _ => trivial⟩

/-- The tables of a page have different names exactly if those that its filter and its order use
do. -/
theorem page_distinct_iff (terms : List OrderTerm)
    (hselection : t.selection filter = .ok selection) :
    (t.page selection request terms).Distinct ↔
      t.PageNamesApart filter (request.order.map (·.path)) := by
  have hnames : (t.page selection request terms).names.Nodup ↔
      t.NamesApart (t.joinedPaths filter ++ request.order.map (·.path)) := by
    rw [Select.names, page_joins terms hselection, aliasNames_joinsOf]
    rfl
  rw [Select.Distinct, hnames, PageNamesApart, joinedPaths]
  refine (and_congr_right fun _ => restriction_distinct_iff hselection).trans ?_
  split <;> rename_i hreaches
  · simp [hreaches, and_comm]
  · simp [hreaches]

/-- The tables of a count have different names exactly if those that its filter uses do. -/
theorem count_distinct_iff (hselection : t.selection filter = .ok selection) :
    (t.count selection).Distinct ↔ t.NamesApart (pathsOf filter) := by
  have hnames : (t.count selection).names.Nodup ↔ t.NamesApart (t.joinedPaths filter) := by
    obtain ⟨_, _, rfl⟩ := selection_eq_ok hselection
    show (t.resource.storage :: List.map _ (t.joinsOf _)).Nodup ↔ _
    rw [aliasNames_joinsOf]
    rfl
  rw [Select.Distinct, hnames, joinedPaths]
  refine (and_congr_right fun _ => restriction_distinct_iff hselection).trans ?_
  split <;> rename_i hreaches
  · have hroot : t.NamesApart [] := List.pairwise_singleton _ _
    simp [hreaches, hroot]
  · simp [hreaches]

/-- A select with the restriction of a selection finds the rows that the filter finds, each once,
whatever it joins to one row after the selection. -/
theorem map_row_found_eq (hlawful : engine.IsLawful) (hkeys : t.HasKeys engine db)
    (hselection : t.selection filter = .ok selection) {s : Select} {more : List Join}
    (htable : s.table = t.resource.storage) (hjoins : s.joins = selection.joins ++ more)
    (hrestriction : s.restriction = selection.restriction)
    (hmore : ∀ j ∈ more, j.IsSingle engine db) :
    (s.found engine db).map (·.row s.table) = (db s.table).filter (t.finds engine db filter) := by
  apply Select.map_row_found
  · intro j hj
    rw [hjoins] at hj
    rcases List.mem_append.1 hj with hselected | hadded
    · exact selection_isSingle hlawful hkeys hselection j hselected
    · exact hmore j hadded
  · intro r hr scope hscope
    rw [htable] at hr
    rw [htable, hjoins] at hscope
    rw [hrestriction]
    exact keeps_eq_finds hlawful hkeys hselection more hr hscope

/-- A page without limit and offset returns the rows that the filter finds, each once and in some
arrangement, and a count returns how many these are. Both hold exactly if the names of what filter
and order use are different. -/
theorem page_and_count_return (hlawful : engine.IsLawful) (hkeys : t.HasKeys engine db)
    {query : Query} (hcompile : t.compile request = .ok query) :
    (∀ rows, query.page.unlimited.Returns engine db rows ↔
      t.PageNamesApart request.filter (request.order.map (·.path)) ∧
        rows.Perm ((t.foundRows engine db request.filter).map fun r => [.record r])) ∧
    ∀ count ∈ query.count, ∀ rows, count.Returns engine db rows ↔
      t.NamesApart (pathsOf request.filter) ∧
        rows = [[.value countLabel (.number (t.foundRows engine db request.filter).length)]] := by
  obtain ⟨selection, hselection, hrest⟩ := Result.bind_eq_ok.1 hcompile
  obtain ⟨terms, hterms, hrest⟩ := Result.bind_eq_ok.1 hrest
  obtain ⟨totals, _, hrest⟩ := Result.bind_eq_ok.1 hrest
  obtain ⟨eager, _, hrest⟩ := Result.bind_eq_ok.1 hrest
  cases hrest
  constructor
  · obtain ⟨more, hmore, hsingle⟩ := page_joins_append hlawful hkeys hselection hterms
    have hresolves := page_resolves hselection hterms
    intro rows
    rw [← page_distinct_iff terms hselection]
    exact Select.returns_rows_iff (s := (t.page selection request terms).unlimited)
      ⟨hresolves.joins, hresolves.restriction, hresolves.columns, hresolves.groupBy,
        hresolves.orderBy⟩ rfl rfl rfl rfl
      (map_row_found_eq hlawful hkeys hselection rfl hmore rfl hsingle) rows
  · intro count hcount rows
    dsimp only at hcount
    split at hcount
    · cases hcount
      rw [← count_distinct_iff hselection]
      exact Select.returns_count_iff (count_resolves hselection) rfl rfl rfl rfl
        (map_row_found_eq hlawful hkeys hselection rfl (List.append_nil _).symm rfl
          fun j hj => nomatch hj) rows
    · cases hcount

end Target

/-- A database without functions, in which values of different types are never equal. -/
def Engine.plain : Engine where
  call _ _ := .null
  aggregate _ _ := .null
  template _ _ := .null
  like _ _ := .null
  compare _ x y := .bool (x == y)

theorem Engine.equal_plain (x y : Datum) :
    plain.equal x y = true ↔ x ≠ .null ∧ x = y := by
  have hkind : ∀ {kind : Kind}, kind.Holds x → kind.Holds y →
      (plain.equal x y = true ↔ x ≠ .null ∧ x = y) := by
    intro kind hx hy
    rw [equal, plain.compareWith_of_holds .eq hx hy]
    simp [truth?, Comparator.accepts, hx.related_isEq hy, hx.ne_null]
  cases x <;> cases y
  case bool.bool a b => exact hkind (.bool a) (.bool b)
  case number.number a b => exact hkind (.number a) (.number b)
  case text.text a b => exact hkind (.text a) (.text b)
  all_goals simp [equal, compareWith, Datum.order?, plain, truth?]

theorem Engine.isLawful_plain : plain.IsLawful where
  refl x hx := (equal_plain x x).2 ⟨hx, rfl⟩
  symm x y hxy := by
    obtain ⟨hx, rfl⟩ := (equal_plain x y).1 hxy
    exact hxy
  trans x y z hxy hyz := by
    obtain ⟨hx, rfl⟩ := (equal_plain x y).1 hxy
    exact hyz

namespace Shop

/-- Products, each with at most one category and any number of reviews. -/
def products (storage : String) : Resource where
  name := "product"
  storage := storage
  attributes := [{ name := "name", kind := .string }]
  relations := [
    .toOne "category" "category" "category_id" "id",
    .toMany "reviews" "review" "id" "product_id"]

def categories : Resource where
  name := "category"
  storage := "categories"
  attributes := [{ name := "name", kind := .string }]

def reviews : Resource where
  name := "review"
  storage := "reviews"
  attributes := [{ name := "rating", kind := .numeric }]

/-- A shop whose products are in the given table. -/
def target (storage : String) : Target where
  dialect := .postgres
  functions := []
  registry := {
    entries := [products storage, categories, reviews].map (⟨·, .relational .postgres []⟩) }
  resource := products storage

def lamp : Listing.Record := fun column =>
  if column = "name" then .text "Lamp" else .number 1

/-- A product without a category. -/
def desk : Listing.Record := fun column =>
  if column = "name" then .text "Desk" else if column = "id" then .number 2 else .null

def light : Listing.Record := fun column =>
  if column = "name" then .text "Light" else .number 1

/-- A review of the lamp. -/
def review (rating : Rat) : Listing.Record := fun column =>
  if column = "rating" then .number rating else .number 1

/-- Two products, one category, and two reviews of one product. -/
def rows (storage : String) : Database := fun table =>
  if table = storage then [lamp, desk]
  else if table = "categories" then [light]
  else if table = "reviews" then [review 5, review 4]
  else []

/-- Well reviewed products by category, and how many there are. -/
def reviewed : Request where
  filter := some (.comparison {
    param := "reviews__rating__gte"
    path := ⟨["reviews"], "rating"⟩
    operator := .gte
    function := none
    value := .string "4" })
  order := [⟨⟨["category"], "name"⟩, .ascending⟩]
  paging := { wantTotal := true }

/-- A shop with a table of products of its own making. -/
def shopOf (products : Resource) : Target where
  dialect := .postgres
  functions := []
  registry := { entries := [products, categories, reviews].map (⟨·, .relational .postgres []⟩) }
  resource := products

/-- The only relation to one row that a path can walk in a shop leads to the category. -/
theorem isUnique_of_walk {made : Resource} {names : List String} {hop : Hop}
    (hhop : hop ∈ ((shopOf made).registry.walk made names).1) (hname : made.name = "product")
    (hrelations : made.relations = (products "products").relations)
    {db : Database} (hcategories : db "categories" = [light])
    (hone : hop.relation.many = false) :
    Engine.plain.IsUnique [hop.relation.foreignKey] (db hop.target.storage) := by
  obtain ⟨howner, htarget⟩ := Registry.mem_walk hhop
  have hrelation : hop.relation ∈ made.relations := by
    rcases howner with hfirst | ⟨entry, hentry, hregistered⟩
    · exact hfirst
    · simp only [shopOf, List.map_cons, List.map_nil, List.mem_cons, List.not_mem_nil,
        or_false] at hentry
      rcases hentry with rfl | rfl | rfl
      · exact hregistered
      · exact nomatch hregistered
      · exact nomatch hregistered
  rw [hrelations] at hrelation
  simp only [products, List.mem_cons, List.not_mem_nil, or_false] at hrelation
  rcases hrelation with heq | heq
  · rw [heq] at htarget ⊢
    have hcategory : categories = hop.target := by
      have hfound : (shopOf made).registry.resource? "category" = some categories := by
        simp [shopOf, Registry.resource?, Registry.entry?, hname, categories]
      exact Option.some.inj (hfound.symm.trans htarget)
    rw [← hcategory]
    show Engine.plain.IsUnique ["id"] (db "categories")
    rw [hcategories]
    exact List.pairwise_singleton _ light
  · rw [heq] at hone
    cases hone

theorem hasKeys {storage : String} (hstorage : storage ≠ "categories") :
    (target storage).HasKeys Engine.plain (rows storage) := by
  have hproducts : rows storage storage = [lamp, desk] := if_pos rfl
  have hcategories : rows storage "categories" = [light] := by
    rw [rows, if_neg hstorage.symm, if_pos rfl]
  constructor
  · show Engine.plain.IsKey ["id"] (rows storage storage)
    rw [hproducts]
    constructor
    · unfold Engine.IsUnique
      decide +kernel
    · decide +kernel
  · intro names hop hhop hone _
    exact isUnique_of_walk hhop rfl rfl hcategories hone

/-- A product with two good reviews is on the page once, and is counted once. -/
theorem page_and_count_return_reviewed :
    ∃ query count, (target "products").compile reviewed = .ok query ∧ query.count = some count ∧
      query.page.unlimited.Returns Engine.plain (rows "products") [[.record lamp]] ∧
      count.Returns Engine.plain (rows "products") [[.value countLabel (.number 1)]] := by
  have hfound : (target "products").foundRows Engine.plain (rows "products") reviewed.filter =
      [lamp] := rfl
  have hkeys := hasKeys (show "products" ≠ "categories" by decide)
  refine ⟨_, _, rfl, rfl, ?_⟩
  obtain ⟨hpage, hcount⟩ := Target.page_and_count_return Engine.isLawful_plain hkeys
    (show (target "products").compile reviewed = _ from rfl)
  rw [hfound] at hpage hcount
  exact ⟨(hpage _).2 ⟨by decide +kernel, .refl _⟩,
    (hcount _ rfl _).2 ⟨by decide +kernel, rfl⟩⟩

/-- All products by category. -/
def byCategory : Request where
  order := [⟨⟨["category"], "name"⟩, .ascending⟩]

/-- A table that is called like the alias of a relation cannot be ordered by that relation: the
statement is refused, though there are products and they have keys. -/
theorem page_refused_byCategory :
    ∃ query, byCategory.validate (target "rel_category").registry (products "rel_category") =
        .ok () ∧
      (target "rel_category").compile byCategory = .ok query ∧ Engine.plain.IsLawful ∧
      (target "rel_category").HasKeys Engine.plain (rows "rel_category") ∧
      (target "rel_category").foundRows Engine.plain (rows "rel_category") byCategory.filter =
        [lamp, desk] ∧
      ∀ output, ¬ query.page.unlimited.Returns Engine.plain (rows "rel_category") output := by
  refine ⟨_, rfl, rfl, Engine.isLawful_plain, hasKeys (by decide), rfl, fun output hreturns => ?_⟩
  exact absurd hreturns.distinct (by decide +kernel)

end Shop
end Listing.Sql

/-
# Joins come after the joins they refer to

The joins of a query are the routes that its paths use, in order, so each refers to a table before
it, and the joins of a filter come before those that an order adds.
-/
import Listing.Proofs.ConditionScope
import Listing.Proofs.RouteOrder

namespace Listing.Sql.Target

variable {t : Target} {stem : String} {paths : List Path}

theorem mem_routesUsed {route : Route} :
    route ∈ t.routesUsed paths ↔ route ≠ [] ∧ ∃ path ∈ paths, route <+: t.routeOf path :=
  Registry.mem_routesUsed

theorem isOrdered_routesUsed (t : Target) (paths : List Path) :
    Joins.IsOrdered (t.routesUsed paths) :=
  t.registry.isOrdered_routesUsed t.resource paths

/-- Paths that come later use further routes after those of the first. -/
theorem routesUsed_append (t : Target) (paths more : List Path) :
    ∃ added, t.routesUsed (paths ++ more) = t.routesUsed paths ++ added ∧
      added ⊆ t.routesUsed more := by
  refine ⟨_, by rw [routesUsed, List.flatMap_append, List.eraseDups_append]; rfl, ?_⟩
  intro route hroute
  exact List.mem_eraseDups.2 (List.mem_filter.1 (List.mem_eraseDups.1 hroute)).1

/-- What is collected of paths is the routes that they use. -/
theorem routes_noJoins (t : Target) (stem : String) (paths : List Path) :
    ((t.noJoins stem).addPaths t.registry paths).routes = t.routesUsed paths :=
  Registry.routes_addPaths_empty stem

theorem joinsOf_noJoins (t : Target) (stem : String) (paths : List Path) :
    t.joinsOf ((t.noJoins stem).addPaths t.registry paths)
      = (t.routesUsed paths).filterMap (t.join stem) := by
  rw [joinsOf, routes_noJoins, Joins.stem_addPaths]
  rfl

/-- The joins of paths from the listed resource. -/
def routesOf (t : Target) (paths : List Path) : Joins :=
  (t.noJoins Joins.defaultStem).addPaths t.registry paths

theorem routes_routesOf (t : Target) (paths : List Path) :
    (t.routesOf paths).routes = t.routesUsed paths :=
  t.routes_noJoins Joins.defaultStem paths

theorem hasToMany_routesOf (filter : Option Filter) :
    (t.routesOf (pathsOf filter)).hasToMany = t.reachesMany filter := by
  rw [Joins.hasToMany, routes_routesOf, reachesMany]

theorem joinsOf_routesOf (t : Target) (paths : List Path) :
    t.joinsOf (t.routesOf paths) = (t.routesUsed paths).filterMap (t.join Joins.defaultStem) :=
  t.joinsOf_noJoins Joins.defaultStem paths

theorem routesOf_append (paths more : List Path) :
    (t.routesOf paths).addPaths t.registry more = t.routesOf (paths ++ more) := by
  rw [routesOf, routesOf, Joins.addPaths, Joins.addPaths, Joins.addPaths, List.foldl_append]

/-- The join of a route that is not empty. -/
theorem join_of_ne_nil (stem : String) {route : Route} (hroute : route ≠ []) :
    ∃ hop ∈ route, t.join stem route = some {
      table := hop.target.storage
      aliasName := route.aliasName stem
      foreignKey := hop.relation.foreignKey
      parent := t.tableOf stem route.dropLast
      localKey := hop.relation.localKey } := by
  refine ⟨route.getLast hroute, List.getLast_mem hroute, ?_⟩
  rw [join, List.getLast?_eq_some_getLast hroute, Option.map_some]

/-- The rows at the end of a route that is joined have a name. -/
theorem tableOf_mem {routes : List Route} {route : Route} (hroute : route = [] ∨ route ∈ routes) :
    t.tableOf stem route ∈ t.resource.storage :: routes.map (·.aliasName stem) := by
  rcases hroute with rfl | hmem
  · exact List.mem_cons_self
  · unfold tableOf
    split
    · exact List.mem_cons_self
    · exact List.mem_cons_of_mem _ (List.mem_map_of_mem hmem)

/-- Joins that refer to earlier ones may be followed by one that does. -/
theorem resolve_append {names : List String} {joins : List Join} {j : Join}
    (hjoins : Join.Resolve names joins) (hj : j.parent ∈ names ++ joins.map (·.aliasName)) :
    Join.Resolve names (joins ++ [j]) := by
  induction joins generalizing names with
  | nil => exact ⟨by simpa using hj, trivial⟩
  | cons first joins ih =>
      obtain ⟨hparent, hrest⟩ := hjoins
      exact ⟨hparent, ih hrest (by simpa using hj)⟩

/-- In order, every join refers to a table before it, and all routes are joined. -/
theorem resolve_of_isOrdered {routes : List Route} (hordered : Joins.IsOrdered routes) :
    Join.Resolve [t.resource.storage] (routes.filterMap (t.join stem)) ∧
      (routes.filterMap (t.join stem)).map (·.aliasName) = routes.map (·.aliasName stem) := by
  induction hordered with
  | nil => exact ⟨trivial, rfl⟩
  | snoc routes route _ hnonempty hfollows ih =>
      obtain ⟨hresolve, haliases⟩ := ih
      obtain ⟨hop, _, hjoin⟩ := join_of_ne_nil (t := t) stem hnonempty
      rw [List.filterMap_append, List.filterMap_cons_some hjoin, List.filterMap_nil]
      constructor
      · apply resolve_append hresolve
        rw [haliases]
        exact tableOf_mem hfollows
      · rw [List.map_append, List.map_append, haliases]
        rfl

/-- Every join of paths refers to a table before it. -/
theorem resolve_joinsOf : Join.Resolve [t.resource.storage] (t.joinsOf (t.routesOf paths)) := by
  rw [joinsOf_routesOf]
  exact (resolve_of_isOrdered (t.isOrdered_routesUsed paths)).1

/-- Every route that paths use is joined under its alias. -/
theorem aliasNames_joinsOf : (t.joinsOf (t.routesOf paths)).map (·.aliasName) =
    (t.routesUsed paths).map (·.aliasName Joins.defaultStem) := by
  rw [joinsOf_routesOf]
  exact (resolve_of_isOrdered (t.isOrdered_routesUsed paths)).2

/-- The route of a path is used, unless it is empty. -/
theorem routeOf_mem_routesUsed (t : Target) {path : Path} (hpath : path ∈ paths) :
    t.routeOf path = [] ∨ t.routeOf path ∈ t.routesUsed paths := by
  rw [or_iff_not_imp_left]
  intro hnonempty
  exact mem_routesUsed.2 ⟨hnonempty, path, hpath, List.prefix_refl _⟩

/-- The rows at the end of a path have a name. -/
theorem tableOf_mem_routesUsed (t : Target) (stem : String) {path : Path} (hpath : path ∈ paths) :
    t.tableOf stem (t.routeOf path) ∈
      t.resource.storage :: (t.routesUsed paths).map (·.aliasName stem) :=
  tableOf_mem (t.routeOf_mem_routesUsed hpath)

/-- The rows at the end of a path are joined. -/
theorem tableOf_mem_joinsOf {path : Path} (hpath : path ∈ paths) :
    t.tableOf Joins.defaultStem (t.routeOf path) ∈
      t.resource.storage :: (t.joinsOf (t.routesOf paths)).map (·.aliasName) := by
  rw [aliasNames_joinsOf]
  exact t.tableOf_mem_routesUsed Joins.defaultStem hpath

end Listing.Sql.Target

/-
# Routes come after the routes they extend

The routes of a query are collected path by path, and a route is looked up there by the names that
it walks. These names determine the route, so what is collected is every beginning of every route,
once, in the order in which the paths first walk it. A beginning is shorter than the route, so it
comes first.
-/
import Listing.Relation.Route
import Mathlib.Data.List.Induction

namespace Listing

/-- An element after others is kept once with them unless it is one of them. -/
theorem eraseDups_append_singleton {α : Type} [BEq α] [LawfulBEq α] (xs : List α) (x : α)
    [Decidable (x ∈ xs)] :
    (xs ++ [x]).eraseDups = if x ∈ xs then xs.eraseDups else xs.eraseDups ++ [x] := by
  rw [List.eraseDups_append, List.cons_removeAll]
  by_cases hmem : x ∈ xs <;> simp [hmem, List.eraseDups_cons]

/-- Elements that are kept once are different. -/
theorem nodup_eraseDups {α : Type} [BEq α] [LawfulBEq α] (xs : List α) : xs.eraseDups.Nodup := by
  classical
  induction xs using List.reverseRecOn with
  | nil => exact List.nodup_nil
  | append_singleton xs x ih =>
      rw [eraseDups_append_singleton]
      split
      · exact ih
      · rename_i hfresh
        refine List.nodup_append.2 ⟨ih, by simp, fun y hy z hz heq => hfresh ?_⟩
        rw [List.mem_singleton.1 hz] at heq
        exact heq ▸ List.mem_eraseDups.1 hy

/-- The end of a route that is walked in two parts. -/
theorem Route.destination_append (start : Resource) (route rest : Route) :
    destination start (route ++ rest) = destination (destination start route) rest := by
  unfold destination
  cases rest with
  | nil => simp
  | cons hop rest => simp [List.getLast?_append, List.getLast?_cons]

theorem Route.destination_cons (start : Resource) (hop : Hop) (route : Route) :
    destination start (hop :: route) = destination hop.target route :=
  destination_append start [hop] route

theorem Route.destination_concat (start : Resource) (route : Route) (hop : Hop) :
    destination start (route ++ [hop]) = hop.target :=
  destination_append start route [hop]

theorem Route.mem_beginnings {route first : Route} :
    first ∈ route.beginnings ↔ first ≠ [] ∧ first <+: route := by
  simp only [beginnings, List.mem_map, List.mem_range]
  constructor
  · rintro ⟨i, hi, rfl⟩
    refine ⟨?_, List.take_prefix (i + 1) route⟩
    rw [Ne, List.take_eq_nil_iff]
    rintro (hzero | rfl)
    · exact Nat.succ_ne_zero i hzero
    · exact Nat.not_lt_zero i hi
  · rintro ⟨hnonempty, hbegins⟩
    have hpos : 0 < first.length := List.length_pos_iff.2 hnonempty
    refine ⟨first.length - 1, by have := hbegins.length_le; omega, ?_⟩
    rw [Nat.sub_add_cancel hpos]
    exact (List.prefix_iff_eq_take.1 hbegins).symm

namespace Registry

variable {registry : Registry} {start : Resource} {route other : Route}

/-- A route that is walked by its own names. -/
def IsWalk (registry : Registry) (start : Resource) (route : Route) : Prop :=
  (registry.walk start route.names).1 = route

/-- Walks by the same names are the same. -/
theorem IsWalk.eq_of_names (hroute : registry.IsWalk start route)
    (hother : registry.IsWalk start other) (hnames : other.names = route.names) :
    other = route := by
  rw [← hroute, ← hother, hnames]

theorem hop_name {name : String} {hop : Hop} (hhop : registry.hop? start name = some hop) :
    hop.relation.name = name := by
  obtain ⟨relation, hrelation, hrest⟩ := Option.bind_eq_some_iff.1 hhop
  obtain ⟨target, _, hpure⟩ := Option.bind_eq_some_iff.1 hrest
  cases hpure
  simpa using List.find?_some hrelation

/-- The beginnings of what names walk are walks. -/
theorem isWalk_of_begins {names : List String}
    (hbegins : route <+: (registry.walk start names).1) : registry.IsWalk start route := by
  induction names generalizing start route with
  | nil =>
      rw [walk, List.prefix_nil] at hbegins
      rw [hbegins]
      rfl
  | cons name names ih =>
      rw [walk] at hbegins
      cases hhop : registry.hop? start name with
      | none =>
          rw [hhop, List.prefix_nil] at hbegins
          rw [hbegins]
          rfl
      | some hop =>
          rw [hhop] at hbegins
          rcases List.prefix_cons_iff.1 hbegins with rfl | ⟨rest, rfl, hrest⟩
          · rfl
          · show (registry.walk start (hop.relation.name :: Route.names rest)).1 = hop :: rest
            rw [hop_name hhop, walk, hhop]
            exact congrArg (hop :: ·) (ih hrest)

/-- Names that are walked in two parts. -/
theorem walk_append {names rest : List String}
    (hwalk : registry.walk start names = (route, none)) :
    registry.walk start (names ++ rest) =
      (route ++ (registry.walk (route.destination start) rest).1,
        (registry.walk (route.destination start) rest).2) := by
  induction names generalizing start route with
  | nil =>
      cases hwalk
      rfl
  | cons name names ih =>
      rw [List.cons_append, walk]
      rw [walk] at hwalk
      cases hhop : registry.hop? start name with
      | none =>
          rw [hhop] at hwalk
          cases hwalk
      | some hop =>
          rw [hhop] at hwalk
          dsimp only at hwalk ⊢
          cases htail : registry.walk hop.target names with
          | mk tail bad =>
              rw [htail] at hwalk
              cases hwalk
              rw [ih htail, Route.destination_cons]
              rfl

/-- A relation is walked after others. -/
theorem walk_snoc {names : List String} {name : String} {hop : Hop}
    (hwalk : registry.walk start names = (route, none))
    (hhop : registry.hop? (route.destination start) name = some hop) :
    registry.walk start (names ++ [name]) = (route ++ [hop], none) := by
  rw [walk_append hwalk, walk, hhop]
  rfl

/-- A walk that does not fail walks all of its names. -/
theorem names_of_walk {names : List String} (hwalk : registry.walk start names = (route, none)) :
    route.names = names := by
  induction names generalizing start route with
  | nil =>
      cases hwalk
      rfl
  | cons name names ih =>
      rw [walk] at hwalk
      cases hhop : registry.hop? start name with
      | none =>
          rw [hhop] at hwalk
          cases hwalk
      | some hop =>
          rw [hhop] at hwalk
          cases htail : registry.walk hop.target names with
          | mk tail bad =>
              simp only [htail] at hwalk
              cases hwalk
              show hop.relation.name :: Route.names tail = name :: names
              rw [hop_name hhop, ih htail]

/-- A walk that does not fail can end one relation earlier. -/
theorem walk_dropLast {names : List String} (hwalk : registry.walk start names = (route, none)) :
    registry.walk start names.dropLast = (route.dropLast, none) := by
  induction names generalizing start route with
  | nil =>
      cases hwalk
      rfl
  | cons name names ih =>
      rw [walk] at hwalk
      cases hhop : registry.hop? start name with
      | none =>
          rw [hhop] at hwalk
          cases hwalk
      | some hop =>
          rw [hhop] at hwalk
          cases htail : registry.walk hop.target names with
          | mk tail bad =>
              simp only [htail] at hwalk
              cases hwalk
              have hnames := names_of_walk htail
              cases tail with
              | nil =>
                  obtain rfl : names = [] := hnames.symm
                  rfl
              | cons next tail =>
                  obtain ⟨second, rest, rfl⟩ := List.exists_cons_of_ne_nil
                    (show names ≠ [] from hnames ▸ List.cons_ne_nil _ _)
                  rw [List.dropLast_cons_of_ne_nil (List.cons_ne_nil _ _), walk, hhop]
                  dsimp only
                  rw [ih htail]
                  rfl

end Registry

namespace Joins

variable {registry : Registry} {start : Resource} {routes : List Route}

/-- A walk is added to walks unless it is one of them. -/
theorem addOne_eq {route : Route} (hroutes : ∀ other ∈ routes, registry.IsWalk start other)
    (hroute : registry.IsWalk start route) :
    addOne routes route = if route ∈ routes then routes else routes ++ [route] := by
  by_cases hmem : route ∈ routes
  · have hfound : (indexOf? routes route).isSome = true := by
      rw [indexOf?, List.findIdx?_isSome, List.any_eq_true]
      exact ⟨route, hmem, BEq.rfl⟩
    obtain ⟨i, hi⟩ := Option.isSome_iff_exists.1 hfound
    rw [if_pos hmem, addOne, hi]
  · have hnone : indexOf? routes route = none := by
      rw [indexOf?, List.findIdx?_eq_none_iff]
      intro other hother
      rw [beq_eq_false_iff_ne]
      intro hnames
      exact hmem (hroute.eq_of_names (hroutes other hother) hnames ▸ hother)
    rw [if_neg hmem, addOne, hnone]

/-- Adding walks one after the other keeps each of them once. -/
theorem foldl_addOne (hroutes : ∀ route ∈ routes, registry.IsWalk start route) :
    routes.foldl addOne [] = routes.eraseDups := by
  induction routes using List.reverseRecOn with
  | nil => rfl
  | append_singleton routes route ih =>
      have hbefore : ∀ other ∈ routes, registry.IsWalk start other := fun other hother =>
        hroutes other (List.mem_append_left _ hother)
      have hcollected : ∀ other ∈ routes.eraseDups, registry.IsWalk start other :=
        fun other hother => hbefore other (List.mem_eraseDups.1 hother)
      rw [List.foldl_append, ih hbefore, List.foldl_cons, List.foldl_nil,
        addOne_eq hcollected (hroutes route (by simp)), eraseDups_append_singleton]
      simp only [List.mem_eraseDups]

/-- Adding paths adds the beginnings of their routes. -/
theorem routes_addPaths (joins : Joins) (registry : Registry) (paths : List Path) :
    (joins.addPaths registry paths).routes =
      (paths.flatMap fun path => (registry.walk joins.start path.relations).1.beginnings).foldl
        addOne joins.routes := by
  induction paths generalizing joins with
  | nil => rfl
  | cons path paths ih =>
      rw [List.flatMap_cons, List.foldl_append]
      exact ih (joins.add (registry.walk joins.start path.relations).1)

/-- Adding paths does not change the stem of a table. -/
theorem stem_addPaths (joins : Joins) (registry : Registry) (paths : List Path) :
    (joins.addPaths registry paths).stem = joins.stem := by
  induction paths generalizing joins with
  | nil => rfl
  | cons path paths ih => exact ih (joins.add (registry.walk joins.start path.relations).1)

theorem start_addPaths (joins : Joins) (registry : Registry) (paths : List Path) :
    (joins.addPaths registry paths).start = joins.start := by
  induction paths generalizing joins with
  | nil => rfl
  | cons path paths ih => exact ih (joins.add (registry.walk joins.start path.relations).1)

/-- Every route comes after the one that it extends. -/
inductive IsOrdered : List Route → Prop
  | nil : IsOrdered []
  | snoc (routes : List Route) (route : Route) (ordered : IsOrdered routes) (nonempty : route ≠ [])
      (follows : route.dropLast = [] ∨ route.dropLast ∈ routes) : IsOrdered (routes ++ [route])

/-- The beginnings of a route may be appended. -/
theorem IsOrdered.append_beginnings (hordered : IsOrdered routes) (route : Route) :
    IsOrdered (routes ++ route.beginnings) := by
  -- The beginnings up to any length are in order already; the next one extends the longest.
  suffices h : ∀ n ≤ route.length,
      IsOrdered (routes ++ (List.range n).map fun i => route.take (i + 1)) from
    h route.length (Nat.le_refl _)
  intro n
  induction n with
  | zero => simpa using hordered
  | succ n ih =>
      intro hn
      have hparent : (route.take (n + 1)).dropLast = route.take n := by
        rw [List.dropLast_eq_take, List.length_take, Nat.min_eq_left hn, List.take_take,
          Nat.add_sub_cancel, Nat.min_eq_left (Nat.le_succ n)]
      rw [List.range_succ, List.map_append, ← List.append_assoc]
      refine .snoc _ _ (ih (Nat.le_of_succ_le hn)) ?_ ?_
      · rw [← List.length_pos_iff, List.length_take, Nat.min_eq_left hn]
        exact Nat.succ_pos n
      · rw [hparent]
        cases n with
        | zero => exact .inl List.take_zero
        | succ n =>
            exact .inr (List.mem_append_right _ (List.mem_map.2 ⟨n, by simp, rfl⟩))

/-- Routes that are there already may be left out. -/
theorem IsOrdered.eraseDups (hordered : IsOrdered routes) : IsOrdered routes.eraseDups := by
  induction hordered with
  | nil => exact .nil
  | snoc routes route _ hnonempty hfollows ih =>
      rw [eraseDups_append_singleton]
      split
      · exact ih
      · exact .snoc _ route ih hnonempty (by simpa using hfollows)

/-- Every beginning of a route that is there is there as well. -/
theorem IsOrdered.mem_of_begins (hordered : IsOrdered routes) {route first : Route}
    (hroute : route ∈ routes) (hnonempty : first ≠ []) (hbegins : first <+: route) :
    first ∈ routes := by
  induction hordered generalizing route with
  | nil => exact nomatch hroute
  | snoc routes last _ hlonger hfollows ih =>
      rw [List.mem_append, List.mem_singleton]
      rcases List.mem_append.1 hroute with hbefore | hlast
      · exact .inl (ih hbefore hbegins)
      · obtain rfl := List.mem_singleton.1 hlast
        rw [← List.dropLast_concat_getLast hlonger, List.prefix_concat_iff,
          List.dropLast_concat_getLast] at hbegins
        rcases hbegins with rfl | hshorter
        · exact .inr rfl
        · rcases hfollows with hempty | hparent
          · rw [hempty, List.prefix_nil] at hshorter
            exact absurd hshorter hnonempty
          · exact .inl (ih hparent hshorter)

end Joins

namespace Registry

/-- The routes that paths use: all beginnings of the routes that they walk, each once. -/
def routesUsed (registry : Registry) (start : Resource) (paths : List Path) : List Route :=
  (paths.flatMap fun path => (registry.walk start path.relations).1.beginnings).eraseDups

variable {registry : Registry} {start : Resource} {paths : List Path}

theorem mem_routesUsed {route : Route} : route ∈ registry.routesUsed start paths ↔
    route ≠ [] ∧ ∃ path ∈ paths, route <+: (registry.walk start path.relations).1 := by
  simp only [routesUsed, List.mem_eraseDups, List.mem_flatMap, Route.mem_beginnings]
  constructor
  · rintro ⟨path, hpath, hnonempty, hbegins⟩
    exact ⟨hnonempty, path, hpath, hbegins⟩
  · rintro ⟨hnonempty, path, hpath, hbegins⟩
    exact ⟨path, hpath, hnonempty, hbegins⟩

theorem isOrdered_routesUsed (registry : Registry) (start : Resource) (paths : List Path) :
    Joins.IsOrdered (registry.routesUsed start paths) := by
  apply Joins.IsOrdered.eraseDups
  induction paths using List.reverseRecOn with
  | nil => exact .nil
  | append_singleton paths path ih =>
      rw [List.flatMap_append, List.flatMap_singleton]
      exact ih.append_beginnings (registry.walk start path.relations).1

/-- What is collected of paths is the routes that they use. -/
theorem routes_addPaths_empty (stem : String) :
    (({ start, stem } : Joins).addPaths registry paths).routes =
      registry.routesUsed start paths := by
  have hwalks : ∀ route ∈ paths.flatMap fun path =>
      (registry.walk start path.relations).1.beginnings, registry.IsWalk start route := by
    intro route hroute
    obtain ⟨path, _, hbegins⟩ := List.mem_flatMap.1 hroute
    exact isWalk_of_begins (Route.mem_beginnings.1 hbegins).2
  rw [Joins.routes_addPaths]
  exact Joins.foldl_addOne hwalks

/-- The table of the routes that paths use. -/
theorem addPaths_empty (stem : String) : ({ start, stem } : Joins).addPaths registry paths =
    { start, stem, routes := registry.routesUsed start paths } := by
  have hstart := Joins.start_addPaths { start, stem } registry paths
  have hstem := Joins.stem_addPaths { start, stem } registry paths
  have hroutes : (({ start, stem } : Joins).addPaths registry paths).routes = _ :=
    routes_addPaths_empty stem
  cases hjoins : ({ start, stem } : Joins).addPaths registry paths
  simp_all

end Registry
end Listing

/-
# Resolving paths

The table of routes that queries are compiled with has no cache: it holds the routes themselves. It
answers every call as a resolver does, and its routes are those to the plans, in the same order.
With what a resolver keeps, this says what resolving paths gives after any calls.
-/
import Listing.Proofs.ResolverPlans

namespace Listing

/-! ### The table of routes -/

/-- The routes that extend a route by the beginnings of another one, shortest first. -/
def Route.continued (route : Route) : Route → List Route
  | [] => []
  | hop :: rest => (route ++ [hop]) :: continued (route ++ [hop]) rest

theorem Route.continued_eq (route rest : Route) :
    continued route rest = (List.range rest.length).map fun i => route ++ rest.take (i + 1) := by
  induction rest generalizing route with
  | nil => rfl
  | cons hop rest ih =>
      rw [continued, ih, List.length_cons, List.range_succ_eq_map, List.map_cons, List.map_map]
      simp [Function.comp_def]

theorem Route.beginnings_eq (route : Route) : route.beginnings = continued [] route :=
  (continued_eq [] route).symm

/-- What is called of a resolver, called of the table of routes. -/
def Joins.call (joins : Joins) (registry : Registry) : ResolverCall → Joins × Result Reached
  | .relations param names =>
    let (joins, result) := joins.resolve registry param names
    (joins, result.map fun (join, owner) => { attr := none, owner, join })
  | .attr param path =>
    let (joins, result) := joins.resolveAttribute registry param path
    (joins, result.map fun (attr, owner, join) => { attr := some attr, owner, join })

theorem Joins.call_eq (joins : Joins) (registry : Registry) (c : ResolverCall) :
    joins.call registry c = ((joins.resolve registry c.param c.names).1,
      (joins.resolve registry c.param c.names).2 >>= c.finish) := by
  cases c with
  | relations param names =>
      rw [call, ResolverCall.param, ResolverCall.names]
      cases joins.resolve registry param names with
      | mk next result => cases result <;> rfl
  | attr param path =>
      rw [call, resolveAttribute, ResolverCall.param, ResolverCall.names]
      cases joins.resolve registry param path.relations with
      | mk next result =>
          cases result with
          | error e => rfl
          | ok found =>
              simp only [bind, Except.bind, ResolverCall.finish]
              cases found.2.attribute? path.attr <;> rfl

/-- The table of routes after several calls. -/
def Joins.after (joins : Joins) (registry : Registry) (calls : List ResolverCall) : Joins :=
  calls.foldl (fun joins c => (joins.call registry c).1) joins

namespace Resolver

variable {registry : Registry} {r : Resolver} {joins : Joins}

/-- A table holds the routes to the plans of a resolver, in their order. -/
structure Mirrors (registry : Registry) (r : Resolver) (joins : Joins) : Prop where
  start : joins.start = r.start
  stem : joins.stem = r.stem
  routes : joins.routes = r.plans.map fun plan => (registry.walk r.start plan.path).1

namespace Mirrors

variable {walked names : List String} {route : Route} {name : String} {hop : Hop}
  {parent position : Option Nat}

/-- A route is in the table exactly if there is a plan for its names. -/
theorem mem_routes_iff (hm : r.Mirrors registry joins) (hr : r.IsSound registry)
    (hwalk : registry.walk r.start names = (route, none)) :
    route ∈ joins.routes ↔ names ∈ r.plans.map (·.path) := by
  rw [hm.routes, List.mem_map, List.mem_map]
  constructor
  · rintro ⟨plan, hplan, hroute⟩
    obtain ⟨route', hwalk', -⟩ := hr.walks plan hplan
    refine ⟨plan, hplan, ?_⟩
    rw [hwalk'] at hroute
    obtain rfl : route' = route := hroute
    rw [← Registry.names_of_walk hwalk', Registry.names_of_walk hwalk]
  · rintro ⟨plan, hplan, rfl⟩
    exact ⟨plan, hplan, by rw [hwalk]⟩

/-- The step of a resolver adds one route to the table. -/
theorem register (hm : r.Mirrors registry joins) (hr : r.IsSound registry)
    (hwalk : registry.walk r.start walked = (route, none))
    (hhop : registry.hop? (route.destination r.start) name = some hop) :
    (r.register (walked ++ [name]) parent hop).1.Mirrors registry
      { joins with routes := Joins.addOne joins.routes (route ++ [hop]) } := by
  have hlonger := Registry.walk_snoc hwalk hhop
  have hwalks : ∀ other ∈ joins.routes, registry.IsWalk r.start other := by
    intro other hother
    rw [hm.routes] at hother
    obtain ⟨plan, -, rfl⟩ := List.mem_map.1 hother
    exact Registry.isWalk_of_begins List.prefix_rfl
  have hroute : registry.IsWalk r.start (route ++ [hop]) := by
    rw [Registry.IsWalk, Registry.names_of_walk hlonger, hlonger]
  rw [Joins.addOne_eq hwalks hroute]
  simp only [hm.mem_routes_iff hr hlonger]
  unfold Resolver.register
  cases hfound : r.cache.lookup (walked ++ [name]) with
  | some i =>
      obtain ⟨plan, hplan, hpath⟩ := (hr.cached _ _).1 hfound
      rw [if_pos (hpath ▸ List.mem_map_of_mem (List.mem_of_getElem? hplan))]
      exact hm
  | none =>
      rw [if_neg fun hmem => ?_]
      · refine ⟨hm.start, hm.stem, ?_⟩
        rw [add, List.map_append, hm.routes, List.map_singleton]
        exact congrArg (fun walk : Route × Option String => _ ++ [walk.1]) hlonger.symm
      · obtain ⟨old, hold, hpath⟩ := List.mem_map.1 hmem
        obtain ⟨i, hi⟩ := List.getElem?_of_mem hold
        rw [(hr.cached _ i).2 ⟨old, hi, hpath⟩] at hfound
        cases hfound

/-- Resolving names after a walk adds the routes that continue it. -/
theorem resolveFrom (hm : r.Mirrors registry joins) (hr : r.IsSound registry) (param : String)
    (hwalk : registry.walk r.start walked = (route, none)) (hat : r.IsAt parent walked)
    (names : List String) :
    (Resolver.resolveFrom registry param r walked parent (route.destination r.start) names).1.Mirrors
      registry { joins with
        routes := (route.continued (registry.walk (route.destination r.start) names).1).foldl
          Joins.addOne joins.routes } := by
  induction names generalizing r joins walked route parent with
  | nil => exact hm
  | cons name names ih =>
      rw [Resolver.resolveFrom, Registry.walk]
      cases hhop : registry.hop? (route.destination r.start) name with
      | none => exact hm
      | some hop =>
          obtain ⟨hnext, hextends, hposition⟩ := hr.register hwalk hhop hat
          have hstart := hextends.start
          have hlonger := ih (hm.register hr hwalk hhop) hnext
            (hstart ▸ Registry.walk_snoc hwalk hhop) hposition
          rw [hstart, Route.destination_concat] at hlonger
          exact hlonger

theorem resolve (hm : r.Mirrors registry joins) (hr : r.IsSound registry) (param : String)
    (names : List String) : (r.resolve registry param names).1.Mirrors registry
      (joins.add (registry.walk r.start names).1) := by
  rw [Joins.add, Route.beginnings_eq]
  exact hm.resolveFrom hr param (show registry.walk r.start [] = ([], none) from rfl) .start names

/-- A table and a resolver have the same positions. -/
theorem position_eq (hm : r.Mirrors registry joins) (hr : r.IsSound registry)
    (hwalk : registry.walk r.start names = (route, none)) (hat : r.IsAt position names) :
    joins.position? route = position := by
  have hnames := Registry.names_of_walk hwalk
  unfold Joins.position?
  cases hat with
  | start =>
      obtain rfl : route = [] := by simpa [Route.names] using hnames
      rfl
  | @plan i plan hplan =>
      have hnonempty : route ≠ [] := by
        rintro rfl
        exact hr.path_ne_nil (List.mem_of_getElem? hplan) hnames.symm
      have hpaths : joins.routes.map Route.names = r.plans.map (·.path) := by
        rw [hm.routes, List.map_map]
        refine List.map_congr_left fun plan hplan => ?_
        obtain ⟨route, hwalk, -⟩ := hr.walks plan hplan
        rw [Function.comp_apply, hwalk, Registry.names_of_walk hwalk]
      have hfind : Joins.indexOf? joins.routes route =
          (joins.routes.map Route.names).findIdx? (· == plan.path) := by
        rw [Joins.indexOf?, List.findIdx?_map, hnames]
        rfl
      obtain ⟨hi, hget⟩ := List.getElem?_eq_some_iff.1 hplan
      rw [if_neg (by simpa using hnonempty), hfind, hpaths,
        List.findIdx?_eq_some_iff_getElem]
      refine ⟨by simpa using hi, by simp [hget], fun j hj hsame => ?_⟩
      rw [beq_iff_eq, List.getElem_map] at hsame
      have hlookup := (hr.cached plan.path j).2 ⟨_, List.getElem?_eq_getElem _, hsame⟩
      rw [(hr.cached plan.path i).2 ⟨plan, hplan, rfl⟩, Option.some_inj] at hlookup
      exact absurd hlookup.symm (Nat.ne_of_lt hj)

/-- A table resolves names to what a resolver finds. -/
theorem resolve_eq (hm : r.Mirrors registry joins) (hr : r.IsSound registry) (param : String)
    (names : List String) : joins.resolve registry param names =
      (joins.add (registry.walk r.start names).1, (r.resolve registry param names).2) := by
  obtain ⟨hnext, hextends, hanswers⟩ := hr.resolve param names
  have hadded := hm.resolve hr param names
  rw [Joins.resolve, hm.start]
  cases hresolve : r.resolve registry param names with
  | mk next result =>
      rw [hresolve] at hnext hextends hanswers hadded
      dsimp only at hnext hextends hanswers hadded
      cases hanswers with
      | found hwalk hat =>
          rw [hextends.start] at hwalk ⊢
          rw [hwalk] at hadded ⊢
          have hposition := hadded.position_eq hnext (hextends.start.symm ▸ hwalk) hat
          dsimp only
          rw [hposition, Joins.add, hm.start]
      | missing hwalk =>
          rw [hextends.start] at hwalk
          rw [hwalk]

/-- A table answers calls as a resolver does, and they go on to be alike. -/
theorem call (hm : r.Mirrors registry joins) (hr : r.IsSound registry) (c : ResolverCall) :
    (r.call registry c).1.Mirrors registry (joins.call registry c).1 ∧
      (r.call registry c).2 = (joins.call registry c).2 := by
  rw [call_eq, Joins.call_eq, hm.resolve_eq hr c.param c.names]
  exact ⟨hm.resolve hr c.param c.names, rfl⟩

theorem after (hm : r.Mirrors registry joins) (hr : r.IsSound registry)
    (calls : List ResolverCall) :
    (r.after registry calls).Mirrors registry (joins.after registry calls) := by
  induction calls generalizing r joins with
  | nil => exact hm
  | cons c calls ih => exact ih (hm.call hr c).1 (hr.call c).1

/-- The table knows which plan a plan extends. -/
theorem parent_eq (hm : r.Mirrors registry joins) (hr : r.IsSound registry) {plan : Plan}
    (hplan : plan ∈ r.plans) :
    joins.parent? (registry.walk r.start plan.path).1 = plan.parent := by
  obtain ⟨route, hwalk, -⟩ := hr.walks plan hplan
  rw [hwalk]
  exact hm.position_eq hr (Registry.walk_dropLast hwalk) (hr.extended plan hplan)

/-- Some route of a table reaches several rows exactly if the relation of some plan does: with a
route, there is a plan for each of its relations. -/
theorem hasToMany_eq (hm : r.Mirrors registry joins) (hr : r.IsSound registry) :
    joins.hasToMany = r.hasToMany := by
  rw [Joins.hasToMany, hasToMany, hm.routes, List.any_map, Bool.eq_iff_iff, List.any_eq_true,
    List.any_eq_true]
  constructor
  · rintro ⟨plan, hplan, hmany⟩
    obtain ⟨route, hwalk, -⟩ := hr.walks plan hplan
    rw [Function.comp_apply, hwalk, Route.isToMany, List.any_eq_true] at hmany
    obtain ⟨hop, hhop, hmany⟩ := hmany
    obtain ⟨before, rest, rfl⟩ := List.append_of_mem hhop
    have hbegins : before ++ [hop] <+: before ++ hop :: rest := ⟨rest, by simp⟩
    have hpath : Route.names (before ++ [hop]) ∈ r.plans.map (·.path) := by
      refine hr.mem_of_begins hplan (by simp [Route.names]) ?_
      rw [← Registry.names_of_walk hwalk]
      exact hbegins.map _
    obtain ⟨plan', hplan', hnames⟩ := List.mem_map.1 hpath
    obtain ⟨route, hwalk', hlast⟩ := hr.walks plan' hplan'
    have hroute : registry.IsWalk r.start (before ++ [hop]) := by
      have hprefix : before ++ [hop] <+: (registry.walk r.start plan.path).1 := by
        rw [hwalk]
        exact hbegins
      exact Registry.isWalk_of_begins hprefix
    rw [Registry.IsWalk, ← hnames, hwalk'] at hroute
    rw [show route = before ++ [hop] from hroute, List.getLast?_concat, Option.some_inj] at hlast
    exact ⟨plan', hplan', hlast ▸ hmany⟩
  · rintro ⟨plan, hplan, hmany⟩
    obtain ⟨route, hwalk, hlast⟩ := hr.walks plan hplan
    refine ⟨plan, hplan, ?_⟩
    rw [Function.comp_apply, hwalk]
    exact List.any_eq_true.2 ⟨plan.hop, List.mem_of_getLast? hlast, hmany⟩

end Mirrors

/-- After any calls, what a resolver keeps is sound: its plans are different paths with all of their
beginnings, they stay as they are, and every call is answered as a resolver that has done nothing
yet would answer it. The table of routes does the same. -/
theorem calls_answered_as_fresh (registry : Registry) (start : Resource) (stem : String)
    (calls : List ResolverCall) :
    let fresh : Resolver := { start, stem }
    let r := fresh.after registry calls
    let joins := Joins.after { start, stem } registry calls
    (r.IsSound registry ∧ r.start = start ∧ r.stem = stem) ∧
    (∀ plan ∈ r.plans, ∀ path, path ≠ [] → path <+: plan.path → path ∈ r.plans.map (·.path)) ∧
    (∀ more, r.plans <+: (r.after registry more).plans) ∧
    (∀ c, r.answer registry c = fresh.answer registry c ∧
      ∀ reached, (r.call registry c).2 = .ok reached →
        (r.call registry c).1.IsAt reached.join c.names) ∧
    (∀ i plan, r.plans[i]? = some plan → (r.isToMany i = true ↔
      ∃ hop ∈ (registry.walk start plan.path).1, hop.relation.many = true)) ∧
    (r.Mirrors registry joins ∧ joins.hasToMany = r.hasToMany ∧
      (∀ plan ∈ r.plans, joins.parent? (registry.walk start plan.path).1 = plan.parent) ∧
      ∀ c, (joins.call registry c).2 = (r.call registry c).2) := by
  intro fresh r joins
  have hfresh := isSound_fresh registry start stem
  obtain ⟨hr, hextends⟩ := hfresh.after calls
  have hmirrors : r.Mirrors registry joins := Mirrors.after ⟨rfl, rfl, rfl⟩ hfresh calls
  refine ⟨⟨hr, hextends.start, hextends.stem⟩, fun plan hplan path => hr.mem_of_begins hplan,
    fun more => (hr.after more).2.plans, fun c => ⟨?_, fun reached => hr.isAt_call⟩,
    fun i plan hplan => ?_, hmirrors, hmirrors.hasToMany_eq hr, fun plan hplan => ?_,
    fun c => (hmirrors.call hr c).2.symm⟩
  · exact hr.answer_eq hfresh hextends.start.symm c
  · rw [hr.isToMany_eq hplan, hextends.start]
    simp [Route.isToMany]
  · rw [← hmirrors.parent_eq hr hplan, hextends.start]

end Resolver

namespace Categories

/-- Categories that lie in categories. -/
def category : Resource where
  name := "category"
  storage := "categories"
  attributes := [{ name := "name", kind := .string }]
  relations := [.toOne "parent" "category" "parent_id" "id"]

/-- A path that fails leaves the plans before its missing relation, and the next path uses them. -/
example :
    let calls : List ResolverCall :=
      [.relations "p" ["parent", "brand"], .attr "q" ⟨["parent", "parent"], "name"⟩]
    let r := Resolver.after { start := category, stem := "rel_" }
      { entries := [⟨category, .relational .postgres []⟩] } calls
    r.plans.map (fun plan => (plan.aliasName, plan.parent)) =
      [("rel_parent", none), ("rel_parent__parent", some 0)] := by
  decide +kernel

end Categories
end Listing

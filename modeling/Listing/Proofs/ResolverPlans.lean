/-
# What a resolver keeps

A resolver answers calls one after the other and keeps what it has walked. After any calls, those
that failed included, its plans are different paths, each with all of its beginnings, and each is
what a walk through the schemas finds. The cache says of every path where its plan is, and nothing
else. So a call is answered by the walk alone, as if it were the first one.

`IsSound` is what every step keeps. Registering a relation is the step; a path that is resolved
takes one for each of its names, and a run takes one path after the other.
-/
import Listing.Proofs.Refusal
import Listing.Proofs.RouteOrder
import Listing.Relation.Resolver
import Mathlib.Data.List.Nodup

namespace Listing

/-- The parameter that a call is for, and the names of the relations that it walks. -/
def ResolverCall.param : ResolverCall → String
  | .relations param _ | .attr param _ => param

def ResolverCall.names : ResolverCall → List String
  | .relations _ names => names
  | .attr _ path => path.relations

/-- What a call asks for, at the end of its names. -/
def ResolverCall.finish : ResolverCall → Option Nat × Resource → Result Reached
  | .relations _ _, (join, owner) => .ok { attr := none, owner, join }
  | .attr param path, (join, owner) => match owner.attribute? path.attr with
    | some found => .ok { attr := some found, owner, join }
    | none => .error (.unknownAttribute param path.attr)

/-- It is asked for where the names lead. -/
theorem ResolverCall.eq_of_finish {c : ResolverCall} {found : Option Nat × Resource}
    {reached : Reached} (hfinish : c.finish found = .ok reached) :
    found = (reached.join, reached.owner) := by
  cases c with
  | relations param names =>
      cases hfinish
      rfl
  | attr param path =>
      rw [finish] at hfinish
      split at hfinish
      · cases hfinish
        rfl
      · cases hfinish

/-- The names that a route walks, if there are any. -/
def Route.names? (route : Route) : Option (List String) :=
  if route.isEmpty then none else some route.names

namespace Resolver

variable {registry : Registry} {r r' r'' : Resolver}

/-- A position is where the plan for a path is; there is none for the empty path. -/
inductive IsAt (r : Resolver) : Option Nat → List String → Prop
  | start : IsAt r none []
  | plan {i : Nat} {plan : Plan} (hplan : r.plans[i]? = some plan) : IsAt r (some i) plan.path

/-- Plans are added, and nothing else changes. -/
structure Extends (r r' : Resolver) : Prop where
  start : r'.start = r.start
  stem : r'.stem = r.stem
  plans : r.plans <+: r'.plans

/-- What a resolver keeps. -/
structure IsSound (registry : Registry) (r : Resolver) : Prop where
  /-- There is one plan for each path. -/
  nodup : (r.plans.map (·.path)).Nodup
  /-- Walking its path leads over the relation of a plan to its target. -/
  walks : ∀ plan ∈ r.plans, ∃ route, registry.walk r.start plan.path = (route, none) ∧
    route.getLast? = some plan.hop
  aliases : ∀ plan ∈ r.plans, plan.aliasName = r.stem ++ Path.joinText plan.path
  /-- A plan extends the one for its path without the last name. -/
  extended : ∀ plan ∈ r.plans, r.IsAt plan.parent plan.path.dropLast
  /-- The plan that is extended comes before. -/
  ordered : ∀ (i : Nat) (plan : Plan), r.plans[i]? = some plan → ∀ j ∈ plan.parent, j < i
  /-- The cache knows all plans and nothing else. -/
  cached : ∀ path i, r.cache.lookup path = some i ↔
    ∃ plan, r.plans[i]? = some plan ∧ plan.path = path

theorem Extends.refl (r : Resolver) : r.Extends r := ⟨rfl, rfl, List.prefix_rfl⟩

theorem Extends.trans (h : r.Extends r') (h' : r'.Extends r'') : r.Extends r'' :=
  ⟨h'.start.trans h.start, h'.stem.trans h.stem, h.plans.trans h'.plans⟩

/-- A plan stays where it is. -/
theorem Extends.getElem? (h : r.Extends r') {i : Nat} {plan : Plan}
    (hplan : r.plans[i]? = some plan) : r'.plans[i]? = some plan := by
  obtain ⟨more, hmore⟩ := h.plans
  rw [← hmore, List.getElem?_append_left (List.getElem?_eq_some_iff.1 hplan).1, hplan]

theorem IsAt.mono {position : Option Nat} {path : List String} (hat : r.IsAt position path)
    (h : r.Extends r') : r'.IsAt position path := by
  cases hat with
  | start => exact .start
  | plan hplan => exact .plan (h.getElem? hplan)

theorem isSound_fresh (registry : Registry) (start : Resource) (stem : String) :
    IsSound registry { start, stem } where
  nodup := List.nodup_nil
  walks := nofun
  aliases := nofun
  extended := nofun
  ordered _ _ hplan := by cases hplan
  cached _ _ := by simp

namespace IsSound

/-- Walks have as many relations as names, so the path of a plan is not empty. -/
theorem path_ne_nil (hr : r.IsSound registry) {plan : Plan} (hplan : plan ∈ r.plans) :
    plan.path ≠ [] := by
  obtain ⟨route, hwalk, hlast⟩ := hr.walks plan hplan
  intro hnil
  rw [hnil] at hwalk
  cases hwalk
  cases hlast

/-- With a plan there is one for every beginning of its path. The induction follows the plans that
are extended. -/
theorem mem_of_begins (hr : r.IsSound registry) {plan : Plan} (hplan : plan ∈ r.plans)
    {path : List String} (hnonempty : path ≠ []) (hbegins : path <+: plan.path) :
    path ∈ r.plans.map (·.path) := by
  obtain ⟨i, hi⟩ := List.getElem?_of_mem hplan
  induction i using Nat.strongRecOn generalizing plan with
  | ind i ih =>
      have hlong := hr.path_ne_nil hplan
      rw [← List.dropLast_concat_getLast hlong, List.prefix_concat_iff,
        List.dropLast_concat_getLast hlong] at hbegins
      rcases hbegins with rfl | hshorter
      · exact List.mem_map_of_mem hplan
      · have hat := hr.extended plan hplan
        have hordered := hr.ordered i plan hi
        generalize hbefore : plan.path.dropLast = before at hat hshorter
        generalize plan.parent = parent at hat hordered
        cases hat with
        | start => exact absurd (List.prefix_nil.1 hshorter) hnonempty
        | plan hparent =>
            exact ih _ (hordered _ rfl) (List.mem_of_getElem? hparent) hshorter hparent

end IsSound

/-! ### The step -/

section Step

variable {plan : Plan}

theorem getElem?_add (r : Resolver) (plan : Plan) {i : Nat} {found : Plan} :
    (r.add plan).plans[i]? = some found ↔
      r.plans[i]? = some found ∨ i = r.plans.length ∧ plan = found := by
  rw [add, List.getElem?_append]
  split
  · rename_i hold
    exact ⟨.inl, fun h => h.resolve_right fun hnew => absurd hnew.1 (Nat.ne_of_lt hold)⟩
  · rename_i hnew
    rw [List.getElem?_eq_none (Nat.le_of_not_lt hnew), List.getElem?_singleton]
    split <;> simp <;> omega

theorem extends_add (r : Resolver) (plan : Plan) : r.Extends (r.add plan) :=
  ⟨rfl, rfl, List.prefix_append _ _⟩

theorem isAt_add (r : Resolver) (plan : Plan) :
    (r.add plan).IsAt (some r.plans.length) plan.path :=
  .plan ((getElem?_add r plan).2 (.inr ⟨rfl, rfl⟩))

namespace IsSound

/-- A plan for a path that has none may be added after the one that it extends. -/
theorem add (hr : r.IsSound registry) {route : Route}
    (hwalk : registry.walk r.start plan.path = (route, none))
    (hlast : route.getLast? = some plan.hop)
    (halias : plan.aliasName = r.stem ++ Path.joinText plan.path)
    (hparent : r.IsAt plan.parent plan.path.dropLast)
    (hfresh : plan.path ∉ r.plans.map (·.path)) : IsSound registry (r.add plan) := by
  have hplans : ∀ {p : Plan → Prop}, (∀ old ∈ r.plans, p old) → p plan →
      ∀ found ∈ (r.add plan).plans, p found := fun hold hnew =>
    List.forall_mem_append.2 ⟨hold, List.forall_mem_singleton.2 hnew⟩
  refine ⟨?_, hplans hr.walks ⟨route, hwalk, hlast⟩, hplans hr.aliases halias,
    hplans (fun old hold => ?_) (hparent.mono (extends_add r plan)), fun i found hfound => ?_,
    fun path i => ?_⟩
  · rw [Resolver.add, List.map_append, List.map_singleton, ← List.concat_eq_append,
      List.nodup_concat]
    exact ⟨hfresh, hr.nodup⟩
  · exact (hr.extended old hold).mono (extends_add r plan)
  · rcases (getElem?_add r plan).1 hfound with hold | ⟨rfl, rfl⟩
    · exact hr.ordered i found hold
    · generalize plan.parent = parent at hparent
      generalize plan.path.dropLast = before at hparent
      cases hparent with
      | start => exact nofun
      | plan hbefore =>
          rintro j ⟨⟩
          exact (List.getElem?_eq_some_iff.1 hbefore).1
  · simp only [getElem?_add, or_and_right, exists_or, ← hr.cached]
    rw [Resolver.add, List.lookup_cons]
    by_cases hpath : path = plan.path
    · have hnone : r.cache.lookup path = none := by
        rw [Option.eq_none_iff_forall_ne_some]
        intro j hj
        obtain ⟨old, hold, hsame⟩ := (hr.cached path j).1 hj
        exact hfresh (hpath ▸ hsame ▸ List.mem_map_of_mem (List.mem_of_getElem? hold))
      simp [hpath ▸ hnone, hpath, eq_comm]
    · simp [beq_false_of_ne hpath, Ne.symm hpath]

/-- Registering the relation after a walk keeps what a resolver keeps, and gives the position of the
plan. -/
theorem register (hr : r.IsSound registry) {walked : List String} {route : Route} {name : String}
    {hop : Hop} {parent : Option Nat} (hwalk : registry.walk r.start walked = (route, none))
    (hhop : registry.hop? (route.destination r.start) name = some hop)
    (hat : r.IsAt parent walked) :
    IsSound registry (r.register (walked ++ [name]) parent hop).1 ∧
      r.Extends (r.register (walked ++ [name]) parent hop).1 ∧
      (r.register (walked ++ [name]) parent hop).1.IsAt
        (some (r.register (walked ++ [name]) parent hop).2) (walked ++ [name]) := by
  unfold Resolver.register
  cases hfound : r.cache.lookup (walked ++ [name]) with
  | some position =>
      obtain ⟨plan, hplan, hpath⟩ := (hr.cached _ _).1 hfound
      exact ⟨hr, .refl r, hpath ▸ .plan hplan⟩
  | none =>
      refine ⟨hr.add (Registry.walk_snoc hwalk hhop) List.getLast?_concat rfl ?_ ?_,
        extends_add r _, isAt_add r _⟩
      · rwa [List.dropLast_concat]
      · intro hmem
        obtain ⟨old, hold, hpath⟩ := List.mem_map.1 hmem
        obtain ⟨i, hi⟩ := List.getElem?_of_mem hold
        rw [(hr.cached _ i).2 ⟨old, hi, hpath⟩] at hfound
        cases hfound

end IsSound

end Step

/-! ### Runs -/

/-- What resolving names returns, once they are walked: the position of the last plan and the
resource at the end, or the first name that is no relation. -/
inductive Answers (registry : Registry) (r : Resolver) (param : String) (names : List String) :
    Result (Option Nat × Resource) → Prop
  | found {route : Route} {position : Option Nat}
      (walked : registry.walk r.start names = (route, none)) (isAt : r.IsAt position names) :
      Answers registry r param names (.ok (position, route.destination r.start))
  | missing {route : Route} {bad : String}
      (walked : registry.walk r.start names = (route, some bad)) :
      Answers registry r param names (.error (.invalidRelationPath param bad))

theorem Answers.isAt {param : String} {names : List String} {position : Option Nat}
    {owner : Resource} (hanswers : r.Answers registry param names (.ok (position, owner))) :
    r.IsAt position names := by
  generalize hresult : Except.ok (position, owner) = result at hanswers
  cases hanswers with
  | found _ hat =>
      cases hresult
      exact hat
  | missing _ => cases hresult

namespace IsSound

/-- Resolving names after a walk takes one step for each of them, up to the first that is no
relation. -/
theorem resolveFrom (hr : r.IsSound registry) (param : String) {walked : List String}
    {route : Route} {parent : Option Nat} (hwalk : registry.walk r.start walked = (route, none))
    (hat : r.IsAt parent walked) (names : List String) :
    let result := Resolver.resolveFrom registry param r walked parent
      (route.destination r.start) names
    result.1.IsSound registry ∧ r.Extends result.1 ∧
      result.1.Answers registry param (walked ++ names) result.2 := by
  induction names generalizing r walked route parent with
  | nil =>
      rw [List.append_nil]
      exact ⟨hr, .refl r, .found hwalk hat⟩
  | cons name names ih =>
      rw [Resolver.resolveFrom]
      cases hhop : registry.hop? (route.destination r.start) name with
      | none =>
          have hmissing : registry.walk r.start (walked ++ name :: names) = (route, some name) := by
            rw [Registry.walk_append hwalk, Registry.walk, hhop, List.append_nil]
          exact ⟨hr, .refl r, .missing hmissing⟩
      | some hop =>
          obtain ⟨hnext, hextends, hposition⟩ := hr.register hwalk hhop hat
          have hstart := hextends.start
          have hlonger := ih hnext (hstart ▸ Registry.walk_snoc hwalk hhop) hposition
          rw [hstart, Route.destination_concat, List.append_assoc] at hlonger
          exact ⟨hlonger.1, hextends.trans hlonger.2.1, hlonger.2.2⟩

/-- Resolving a chain of relations. -/
theorem resolve (hr : r.IsSound registry) (param : String) (names : List String) :
    (r.resolve registry param names).1.IsSound registry ∧
      r.Extends (r.resolve registry param names).1 ∧
      (r.resolve registry param names).1.Answers registry param names
        (r.resolve registry param names).2 :=
  hr.resolveFrom param (show registry.walk r.start [] = ([], none) from rfl) .start names

end IsSound

/-! ### Calls -/

/-- What a call returns, with a plan told by its path. -/
def answer (r : Resolver) (registry : Registry) (c : ResolverCall) :
    Result (Option Attribute × Resource × Option (List String)) :=
  (r.call registry c).2.map fun reached =>
    (reached.attr, reached.owner, reached.join.bind fun i =>
      ((r.call registry c).1.plans[i]?).map (·.path))

/-- A call resolves its names, and looks for what it asks for at their end. -/
theorem call_eq (r : Resolver) (registry : Registry) (c : ResolverCall) :
    r.call registry c = ((r.resolve registry c.param c.names).1,
      (r.resolve registry c.param c.names).2 >>= c.finish) := by
  cases c with
  | relations param names =>
      rw [call, ResolverCall.param, ResolverCall.names]
      cases r.resolve registry param names with
      | mk next result => cases result <;> rfl
  | attr param path =>
      rw [call, ResolverCall.param, ResolverCall.names]
      cases r.resolve registry param path.relations with
      | mk next result =>
          cases result with
          | error e => rfl
          | ok found =>
              simp only [bind, Except.bind, ResolverCall.finish]
              cases found.2.attribute? path.attr <;> rfl

/-- The path of the plan at a position is that of the walk. -/
theorem IsAt.path_eq {position : Option Nat} {names : List String} {route : Route}
    (hat : r.IsAt position names) (hr : r.IsSound registry)
    (hwalk : registry.walk r.start names = (route, none)) :
    (position.bind fun i => (r.plans[i]?).map (·.path)) = route.names? := by
  have hnames := Registry.names_of_walk hwalk
  cases hat with
  | start =>
      obtain rfl : route = [] := by simpa [Route.names] using hnames
      rfl
  | plan hplan =>
      have hnonempty : route ≠ [] := by
        rintro rfl
        exact hr.path_ne_nil (List.mem_of_getElem? hplan) hnames.symm
      simp [hplan, Route.names?, hnonempty, hnames]

namespace IsSound

/-- A call keeps what a resolver keeps, and adds plans only. -/
theorem call (hr : r.IsSound registry) (c : ResolverCall) :
    (r.call registry c).1.IsSound registry ∧ r.Extends (r.call registry c).1 := by
  rw [call_eq]
  obtain ⟨hnext, hextends, -⟩ := hr.resolve c.param c.names
  exact ⟨hnext, hextends⟩

/-- The position that a call returns is that of the plan for its names. -/
theorem isAt_call (hr : r.IsSound registry) {c : ResolverCall} {reached : Reached}
    (hcall : (r.call registry c).2 = .ok reached) :
    (r.call registry c).1.IsAt reached.join c.names := by
  rw [call_eq] at hcall ⊢
  obtain ⟨found, hfound, hfinish⟩ := Result.bind_eq_ok.1 hcall
  obtain rfl := ResolverCall.eq_of_finish hfinish
  have hanswers := (hr.resolve c.param c.names).2.2
  rw [hfound] at hanswers
  exact hanswers.isAt

/-- A call is answered by the route that its names walk. -/
theorem answer_eq_route (hr : r.IsSound registry) (c : ResolverCall) :
    r.answer registry c = registry.route r.start c.param c.names >>= fun route =>
      (c.finish (none, route.destination r.start)).map fun reached =>
        (reached.attr, reached.owner, route.names?) := by
  obtain ⟨hnext, hextends, hanswers⟩ := hr.resolve c.param c.names
  rw [answer, call_eq, Registry.route]
  cases hresolve : r.resolve registry c.param c.names with
  | mk next result =>
      rw [hresolve] at hnext hextends hanswers
      dsimp only at hnext hextends hanswers
      cases hanswers with
      | @found route position hwalk hat =>
          have hpath := hat.path_eq hnext hwalk
          rw [hextends.start] at hwalk ⊢
          rw [hwalk]
          simp only [bind, Except.bind]
          cases c with
          | relations param names =>
              exact congrArg (fun path => Except.ok (none, _, path)) hpath
          | attr param path =>
              simp only [ResolverCall.finish]
              cases (route.destination r.start).attribute? path.attr with
              | none => rfl
              | some attr => exact congrArg (fun path => Except.ok (some attr, _, path)) hpath
      | missing hwalk =>
          rw [hextends.start] at hwalk
          rw [hwalk]
          rfl

/-- What was walked before does not show in an answer. -/
theorem answer_eq (hr : r.IsSound registry) (hr' : r'.IsSound registry)
    (hstart : r'.start = r.start) (c : ResolverCall) :
    r.answer registry c = r'.answer registry c := by
  rw [hr.answer_eq_route, hr'.answer_eq_route, hstart]

/-- So do several calls. -/
theorem after (hr : r.IsSound registry) (calls : List ResolverCall) :
    (r.after registry calls).IsSound registry ∧ r.Extends (r.after registry calls) := by
  induction calls generalizing r with
  | nil => exact ⟨hr, .refl r⟩
  | cons c calls ih =>
      obtain ⟨hnext, hextends⟩ := hr.call c
      obtain ⟨hlast, hmore⟩ := ih hnext
      exact ⟨hlast, hextends.trans hmore⟩

/-- Whether a plan reaches several rows depends on the relations that its path walks. The induction
follows the plans that are extended. -/
theorem isToMany_eq (hr : r.IsSound registry) {i : Nat} {plan : Plan}
    (hplan : r.plans[i]? = some plan) :
    r.isToMany i = (registry.walk r.start plan.path).1.isToMany := by
  induction i using Nat.strongRecOn generalizing plan with
  | ind i ih =>
      have hmem := List.mem_of_getElem? hplan
      obtain ⟨route, hwalk, hlast⟩ := hr.walks plan hmem
      have hroute : route.isToMany =
          (Route.isToMany route.dropLast || plan.hop.relation.many) := by
        have hnonempty : route ≠ [] := by
          rintro rfl
          cases hlast
        rw [List.getLast?_eq_some_getLast hnonempty, Option.some_inj] at hlast
        conv_lhs => rw [← List.dropLast_concat_getLast hnonempty, hlast]
        simp [Route.isToMany]
      have hbefore := Registry.walk_dropLast hwalk
      have hat := hr.extended plan hmem
      have hordered := hr.ordered i plan hplan
      rw [isToMany, hplan, hwalk, hroute, Bool.or_comm]
      dsimp only
      refine congrArg (plan.hop.relation.many || ·) ?_
      generalize plan.path.dropLast = before at hbefore hat
      generalize plan.parent = parent at hat hordered
      cases hat with
      | start =>
          rw [← (Prod.mk.inj hbefore).1]
          rfl
      | @plan j parent hparent =>
          have hj := hordered j rfl
          dsimp only
          rw [if_pos hj, ih j hj hparent, hbefore]

end IsSound

end Resolver

end Listing

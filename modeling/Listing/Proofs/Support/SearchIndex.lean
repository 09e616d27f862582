/-
# What search indexes lack

A search of a valid request fails exactly for one of three reasons: a comparison has a chain of
functions, a path crosses a reference to another resource, or a path of groups or totals lies in a
list of objects. Every operator on a field has a clause, and the relations to load are ignored.
-/
import Listing.Proofs.Support.Basic
import Listing.SearchIndex.Query

namespace Listing.SearchIndex

namespace Target

variable (t : Target)

/-- A path crosses a reference to another resource. -/
def CrossesReference (path : Path) : Prop :=
  t.registry.Crosses t.resource path (·.embedded = false)

/-- A path lies in a list of objects. -/
def CrossesList (path : Path) : Prop :=
  t.registry.Crosses t.resource path (·.many = true)

/-- What the store lacks for one comparison. -/
def LacksFor (c : Comparison) : Prop := c.function ≠ none ∨ t.CrossesReference c.path

/-- What the store lacks for a request. -/
inductive Lacks (request : Request) : Prop
  | function (c : Comparison) (mem : c ∈ request.comparisons) (chain : c.function ≠ none)
  | reference (path : Path) (mem : path ∈ request.paths) (crosses : t.CrossesReference path)
  | nestedTotals (path : Path) (mem : path ∈ request.aggregate.paths)
      (crosses : t.CrossesList path)

variable {t}

/-- A route is refused if it has a reference. -/
theorem refusedIff_checkEmbedded (param : String) (route : Route) :
    RefusedIff (checkEmbedded param route) (∃ hop ∈ route, hop.relation.embedded = false) := by
  unfold checkEmbedded
  cases hfound : route.reverse.find? (! ·.relation.embedded) with
  | none =>
      apply (RefusedIff.ok ()).congr
      simpa using hfound
  | some hop =>
      apply (RefusedIff.unsupported _ _ _).congr
      have hmem := List.mem_of_find?_eq_some hfound
      exact ⟨fun _ => ⟨hop, by simpa using hmem, by simpa using List.find?_some hfound⟩,
        fun _ => trivial⟩

/-- A route passes through a list of objects if one of its relations is to many. -/
theorem listPaths_eq_nil (route : Route) :
    listPaths route = [] ↔ ∀ hop ∈ route, hop.relation.many = false := by
  rw [listPaths, List.filterMap_eq_nil_iff, Route.beginnings]
  constructor
  · intro hnone hop hhop
    obtain ⟨i, hi, hget⟩ := List.mem_iff_getElem.1 hhop
    have hlast : (route.take (i + 1)).getLast? = some hop := by
      rw [List.getLast?_take, if_neg (by omega)]
      simp [hget, List.getElem?_eq_getElem hi]
    have hbefore := hnone (route.take (i + 1))
      (List.mem_map.2 ⟨i, List.mem_range.2 hi, rfl⟩)
    simpa [hlast] using hbefore
  · intro hnone before hbefore
    obtain ⟨i, hi, rfl⟩ := List.mem_map.1 hbefore
    cases hlast : (route.take (i + 1)).getLast? with
    | none => simp
    | some hop =>
        have hmem : hop ∈ route := List.mem_of_mem_take (List.mem_of_getLast? hlast)
        simp [hnone hop hmem]

/-- A field is refused if its path crosses a reference. -/
theorem refusedIff_field (param : String) {path : Path} {located : Located}
    (hlocate : t.registry.locate t.resource param path = .ok located) :
    RefusedIff (t.field param path) (t.CrossesReference path) := by
  rw [CrossesReference, Registry.crosses_iff_of_locate hlocate]
  apply RefusedIff.bind_ok hlocate
  exact ((refusedIff_checkEmbedded param located.route).bind fun _ _ =>
    RefusedIff.ok _).congr (by simp)

/-- The field at the end of a path is that of the attribute that was found. -/
theorem field_eq_ok {param : String} {path : Path} {located : Located} {field : Field}
    (hlocate : t.registry.locate t.resource param path = .ok located)
    (hfield : t.field param path = .ok field) :
    field.lists = listPaths located.route ∧ field.attr = located.attr := by
  obtain ⟨found, hfound, hrest⟩ := Result.bind_eq_ok.1 hfield
  rw [hlocate] at hfound
  cases hfound
  obtain ⟨_, _, hrest⟩ := Result.bind_eq_ok.1 hrest
  cases hrest
  exact ⟨rfl, rfl⟩

/-- A field of totals is refused if its path crosses a reference or lies in a list. -/
theorem refusedIff_plainField (param : String) {path : Path} {located : Located}
    (hlocate : t.registry.locate t.resource param path = .ok located) :
    RefusedIff (t.plainField param path) (t.CrossesReference path ∨ t.CrossesList path) := by
  apply (refusedIff_field param hlocate).bind
  intro field hfield
  rw [CrossesList, Registry.crosses_iff_of_locate hlocate, (field_eq_ok hlocate hfield).1]
  by_cases hlists : listPaths located.route = []
  · have hnone := (listPaths_eq_nil located.route).1 hlists
    rw [hlists]
    exact (RefusedIff.ok _).congr (by simpa using hnone)
  · have hsome := mt (listPaths_eq_nil located.route).2 hlists
    rw [if_neg (by simpa using hlists)]
    exact (RefusedIff.unsupported _ _ _).congr (by simpa using hsome)

/-- No operator on a field is refused. -/
theorem refusedIff_fieldClause (param : String) {op : Operator} (hvalues : op.arity ≠ .function)
    (field : Field) (operand : Operand)
    (hrange : op.positive = .range → ∃ low high, operand = .bounds low high) :
    RefusedIff (fieldClause param op.positive field operand) False := by
  cases hop : op.positive
  case function | predicate =>
    have harity := Operator.arity_positive op
    rw [hop] at harity
    exact absurd harity.symm hvalues
  case range =>
    obtain ⟨low, high, rfl⟩ := hrange hop
    exact RefusedIff.ok _
  case contains =>
    unfold fieldClause
    dsimp only
    split
    · exact RefusedIff.ok _
    · exact RefusedIff.ok _
  all_goals first
    | exact RefusedIff.ok _
    | (have hpositive := Operator.positive_positive op
       rw [hop] at hpositive
       cases hpositive)

/-- A comparison is refused for what the store lacks for it. -/
theorem refusedIff_comparison {c : Comparison} (hready : c.Ready t.registry t.resource) :
    RefusedIff (t.comparison c) (t.LacksFor c) := by
  obtain ⟨located, operand, hlocate, _, hoperand⟩ := Comparison.validate_eq_ok hready.valid
  have hwell := hready.wellFormed
  unfold Comparison.WellFormed at hwell
  unfold comparison LacksFor
  cases hfunction : c.function with
  | some f => exact (RefusedIff.unsupported _ _ _).congr (by simp)
  | none =>
      rw [hfunction] at hwell
      refine ((refusedIff_field c.param hlocate).bind (q := False) fun field hfield => ?_).congr
        (by simp)
      rw [(field_eq_ok hlocate hfield).2]
      apply RefusedIff.bind_ok hoperand
      exact ((refusedIff_fieldClause c.param hwell field operand
        (Comparison.Ready.bounds_of_plain hfunction hoperand)).bind fun _ _ =>
          RefusedIff.ok _).congr (by simp)

/-- The clauses of several filters are found one after the other. -/
theorem conditions_eq_mapM (fs : List Filter) : t.conditions fs = fs.mapM t.condition := by
  induction fs with
  | nil => rfl
  | cons f fs ih =>
      rw [conditions, List.mapM_cons, ih]

/-- A filter is refused for what the store lacks for one of its comparisons. -/
theorem refusedIff_condition {f : Filter}
    (hready : ∀ c ∈ f.comparisons, c.Ready t.registry t.resource) :
    RefusedIff (t.condition f) (∃ c ∈ f.comparisons, t.LacksFor c) := by
  refine Filter.refusedIff_tree (fun c hc => ?_) (fun f => ?_) (fun connective children => ?_)
    hready
  · rw [condition]
    exact refusedIff_comparison hc
  · rw [condition]
    exact RefusedIff.ok _
  · rw [condition, conditions_eq_mapM]
    exact ⟨_, rfl⟩

/-- A query is refused for what the store lacks for its request. -/
theorem refusedIff_compile {request : Request}
    (hready : ∀ c ∈ request.comparisons, c.Ready t.registry t.resource)
    (hvalid : request.IsValid t.registry t.resource) :
    RefusedIff (t.compile request) (t.Lacks request) := by
  have hfilter : RefusedIff (request.filter.mapM t.condition) _ :=
    request.refusedIff_filter fun f hf => refusedIff_condition fun c hc =>
      hready c (request.mem_comparisons.2 ⟨f, hf, hc⟩)
  have hsort : RefusedIff (request.order.mapM t.sortKey) _ :=
    RefusedIff.mapM (p := fun item => t.CrossesReference item.path) fun item hitem => by
      obtain ⟨located, hlocate⟩ := OrderItem.locate_of_validate (hvalid.order item hitem)
      exact ((refusedIff_field _ hlocate).bind fun _ _ => RefusedIff.ok _).congr (by simp)
  have hgroups : RefusedIff (request.aggregate.groupBy.mapM t.dimension) _ :=
    RefusedIff.mapM (p := fun path => t.CrossesReference path ∨ t.CrossesList path)
      fun path hpath => by
        obtain ⟨located, hlocate⟩ := locate_of_validateGroup (hvalid.groups path hpath)
        exact ((refusedIff_plainField _ hlocate).bind fun _ _ => RefusedIff.ok _).congr (by simp)
  have hmetrics : RefusedIff (request.aggregate.metrics.mapM t.metricField) _ :=
    RefusedIff.mapM (p := fun m => ∃ path, m.path = some path ∧
        (t.CrossesReference path ∨ t.CrossesList path)) fun m hm => by
      have hfield : RefusedIff (m.path.mapM (t.plainField Param.totals)) _ :=
        RefusedIff.optionMapM fun path hpath => by
          obtain ⟨located, hlocate⟩ := Metric.locate_of_validate (hvalid.metrics m hm) hpath
          exact refusedIff_plainField _ hlocate
      exact (hfield.bind fun _ _ => RefusedIff.ok _).congr (by simp)
  have htotals := request.aggregate.exists_paths_iff
    fun path => t.CrossesReference path ∨ t.CrossesList path
  refine (hfilter.bind fun filter _ => hsort.bind fun sort _ => hgroups.bind fun dimensions _ =>
    hmetrics.bind fun metrics _ => RefusedIff.ok _).congr ?_
  rw [or_false, ← htotals]
  constructor
  · rintro (⟨c, hc, hchain | hcrosses⟩ | ⟨item, hitem, hcrosses⟩ |
      ⟨path, hpath, hcrosses | hlist⟩)
    · exact .function c hc hchain
    · exact .reference c.path (request.path_mem_of_comparison hc) hcrosses
    · exact .reference item.path (request.path_mem_of_order hitem) hcrosses
    · exact .reference path (request.path_mem_of_totals hpath) hcrosses
    · exact .nestedTotals path hpath hlist
  · rintro (⟨c, hc, hchain⟩ | ⟨path, hpath, hcrosses⟩ | ⟨path, hpath, hlist⟩)
    · exact Or.inl ⟨c, hc, Or.inl hchain⟩
    · rcases request.mem_paths.1 hpath with ⟨c, hc, rfl⟩ | ⟨item, hitem, rfl⟩ | htotal
      · exact Or.inl ⟨c, hc, Or.inr hcrosses⟩
      · exact Or.inr (Or.inl ⟨item, hitem, hcrosses⟩)
      · exact Or.inr (Or.inr ⟨path, htotal, Or.inl hcrosses⟩)
    · exact Or.inr (Or.inr ⟨path, hpath, Or.inr hlist⟩)

end Target
end Listing.SearchIndex

/-
# What relational stores lack

A relational query of a valid request fails exactly for one of five reasons: a path or a relation
to load is embedded, an order goes through a relation to many rows, a chain names a function that
is not allowed, or the dialect has no such operator. `Target.Lacks` lists them without mention of
how the query is compiled.

The proof follows the compiler: each part of the query is refused under a condition of its own, and
the conditions add up.
-/
import Listing.Proofs.SqlCondition
import Listing.Proofs.Support.Basic
import Listing.Sql.Query

namespace Listing.Sql

/-- The operators that a dialect does not have, negated or not. -/
def Dialect.Lacks (d : Dialect) (op : Operator) : Prop :=
  match op.positive with
  | .contains | .overlap | .hasAll | .hasAny | .hasKey => d ≠ .postgres
  | .search => d = .sqlite
  | _ => False

namespace Target

variable (t : Target)

/-- A path crosses an embedded relation. -/
def CrossesEmbedded (path : Path) : Prop :=
  t.registry.Crosses t.resource path (·.embedded = true)

/-- What the store lacks for one comparison. -/
def LacksFor (c : Comparison) : Prop :=
  t.CrossesEmbedded c.path ∨ (∃ name ∈ c.functionNames, Text.lowerAscii name ∉ t.functions) ∨
    (¬ c.IsCall ∧ t.dialect.Lacks c.valueOperator)

/-- What the store lacks for a request. -/
inductive Lacks (request : Request) : Prop
  | embedded (path : Path) (mem : path ∈ request.paths) (crosses : t.CrossesEmbedded path)
  | embeddedFetch (relation : Relation) (selects : request.fetch.Selects t.resource relation)
      (embedded : relation.embedded = true)
  | orderThroughMany (item : OrderItem) (mem : item ∈ request.order)
      (crosses : t.registry.Crosses t.resource item.path (·.many = true))
  | function (c : Comparison) (mem : c ∈ request.comparisons) (name : String)
      (named : name ∈ c.functionNames) (unknown : Text.lowerAscii name ∉ t.functions)
  | operator (c : Comparison) (mem : c ∈ request.comparisons) (compared : ¬ c.IsCall)
      (lacks : t.dialect.Lacks c.valueOperator)

variable {t}

/-- A route is refused if it has an embedded relation. -/
theorem refusedIff_checkReferences (param : String) (route : Route) :
    RefusedIff (t.checkReferences param route) (∃ hop ∈ route, hop.relation.embedded = true) := by
  unfold checkReferences
  cases hfound : route.reverse.find? (·.relation.embedded) with
  | none =>
      apply (RefusedIff.ok ()).congr
      simpa using hfound
  | some hop =>
      apply (RefusedIff.unsupported _ _ _).congr
      have hmem := List.mem_of_find?_eq_some hfound
      exact ⟨fun _ => ⟨hop, by simpa using hmem, by simpa using List.find?_some hfound⟩,
        fun _ => trivial⟩

theorem refusedIff_columnOf (stem param : String) (located : Located) :
    RefusedIff (t.columnOf stem param located)
      (∃ hop ∈ located.route, hop.relation.embedded = true) :=
  (refusedIff_checkReferences param located.route).bind (fun _ _ => RefusedIff.ok _)
    |>.congr (by simp)

/-- The column of a path that was found is refused if the path crosses an embedded relation. -/
theorem refusedIff_column (stem param : String) {path : Path} {located : Located}
    (hlocate : t.registry.locate t.resource param path = .ok located) :
    RefusedIff (t.column stem param path) (t.CrossesEmbedded path) := by
  rw [CrossesEmbedded, Registry.crosses_iff_of_locate hlocate]
  exact RefusedIff.bind_ok hlocate (refusedIff_columnOf stem param located)

/-- A call is refused if the function is not allowed. -/
theorem refusedIff_call (param name : String) (arguments : List Expr) :
    RefusedIff (t.call param name arguments) (Text.lowerAscii name ∉ t.functions) := by
  unfold call
  by_cases hallowed : Text.lowerAscii name ∈ t.functions
  · simpa [hallowed] using RefusedIff.ok (Expr.call (Text.lowerAscii name) arguments)
  · simpa [hallowed, unsupported] using RefusedIff.unsupported param _ _

/-- The operators that only Postgres has, but for text search. -/
def postgresOperators : List Operator := [.contains, .overlap, .hasAll, .hasAny, .hasKey]

theorem exists_postgresTest? {op : Operator} (hop : op ∈ postgresOperators) (kind : Kind)
    (e : Expr) (operand : Operand) : ∃ test, postgresTest? op kind e operand = some test := by
  simp only [postgresOperators, List.mem_cons, List.not_mem_nil, or_false] at hop
  rcases hop with rfl | rfl | rfl | rfl | rfl
  · by_cases hkind : kind = .collection
    · exact ⟨_, by simp only [postgresTest?, hkind, if_true]; rfl⟩
    · exact ⟨_, by simp only [postgresTest?, hkind, if_false]; rfl⟩
  all_goals exact ⟨_, rfl⟩

/-- A test is refused if the dialect lacks the operator. -/
theorem refusedIff_test (param : String) {op : Operator} (hvalues : op.arity ≠ .function)
    (kind : Kind) (e : Expr) (operand : Operand)
    (hrange : op.positive = .range → ∃ low high, operand = .bounds low high) :
    RefusedIff (t.test param op.positive kind e operand) (t.dialect.Lacks op) := by
  unfold Dialect.Lacks
  cases hop : op.positive
  case function | predicate =>
    have harity := Operator.arity_positive op
    rw [hop] at harity
    exact absurd harity.symm hvalues
  case range =>
    obtain ⟨low, high, rfl⟩ := hrange hop
    exact RefusedIff.ok _
  case search =>
    unfold test searchTest
    cases t.dialect with
    | postgres => exact (RefusedIff.ok _).congr (by simp)
    | mysql => exact (RefusedIff.ok _).congr (by simp)
    | sqlite => exact (RefusedIff.unsupported _ _ _).congr (by simp)
  case contains | overlap | hasAll | hasAny | hasKey =>
    unfold test
    cases t.dialect with
    | postgres =>
        have hmem : op.positive ∈ postgresOperators := by rw [hop]; decide
        obtain ⟨expr, hexpr⟩ := exists_postgresTest? hmem kind e operand
        rw [hop] at hexpr
        simp only [hexpr]
        exact (RefusedIff.ok _).congr (by simp)
    | mysql => exact (RefusedIff.unsupported _ _ _).congr (by simp)
    | sqlite => exact (RefusedIff.unsupported _ _ _).congr (by simp)
  all_goals first
    | exact RefusedIff.ok _
    | (have hpositive := Operator.positive_positive op
       rw [hop] at hpositive
       cases hpositive)

/-- The functions that a chain applies to its attribute are refused if one is not allowed. -/
theorem refusedIff_transforms (param : String) (names : List String) (e : Expr) :
    RefusedIff (names.foldlM (fun e name => t.call param name [e]) e)
      (∃ name ∈ names, Text.lowerAscii name ∉ t.functions) :=
  RefusedIff.foldlM e fun e name _ => refusedIff_call param name [e]

/-- A comparison is refused for what the store lacks for it. -/
theorem refusedIff_comparison (stem : String) {c : Comparison}
    (hready : c.Ready t.registry t.resource) :
    RefusedIff (t.comparison stem c) (t.LacksFor c) := by
  obtain ⟨located, operand, hlocate, _, hoperand⟩ := Comparison.validate_eq_ok hready.valid
  have hwell := hready.wellFormed
  unfold Comparison.WellFormed at hwell
  have hcolumn := refusedIff_columnOf stem c.param (t := t) located
  rw [LacksFor, CrossesEmbedded, Registry.crosses_iff_of_locate hlocate]
  refine RefusedIff.bind_ok hlocate (hcolumn.bind fun column _ => RefusedIff.bind_ok hoperand ?_)
  cases hfunction : c.function with
  | none =>
      rw [hfunction] at hwell
      have hnames : c.functionNames = [] := by simp [Comparison.functionNames, hfunction]
      have hcall : ¬ c.IsCall := by simp [Comparison.IsCall, hfunction]
      have hoperator : c.valueOperator = c.operator := by
        simp [Comparison.valueOperator, valueOperator, hfunction]
      have htest := refusedIff_test (t := t) c.param hwell located.attr.kind column operand
        (Comparison.Ready.bounds_of_plain hfunction hoperand)
      exact (htest.bind fun _ _ => RefusedIff.ok _).congr (by simp [hnames, hcall, hoperator])
  | some f =>
      rw [hfunction] at hwell
      obtain ⟨_, hne, hcompared⟩ := hwell
      have hnames : c.functionNames = f.transforms ++ f.predicate?.toList := by
        rw [← f.names_eq]
        simp [Comparison.functionNames, hfunction]
      have htransforms := refusedIff_transforms (t := t) c.param f.transforms column
      cases hcompare : f.compare with
      | none =>
          have hcall : c.IsCall := ⟨f, hfunction, hcompare⟩
          obtain ⟨name, hname⟩ := FunctionChain.exists_predicate? hcompare hne
          simp only [hname]
          have hcalled := fun e => refusedIff_call (t := t) c.param name (e ::
            operand.values.map .scalar)
          apply (htransforms.bind fun e _ => hcalled e).congr
          simp [hnames, hname, hcall, or_and_right, exists_or]
      | some op =>
          have hpredicate : f.predicate? = none := by simp [FunctionChain.predicate?, hcompare]
          have hcall : ¬ c.IsCall := by simp [Comparison.IsCall, hfunction, hcompare]
          have hoperator : c.valueOperator = op := by
            simp [Comparison.valueOperator, valueOperator, hfunction, hcompare]
          simp only [hpredicate, hoperator]
          have htest := fun e => refusedIff_test (t := t) c.param (hcompared op hcompare).1 .scalar
            e operand (hready.bounds_of_compared hfunction hcompare hoperand)
          apply (htransforms.bind fun e _ => (htest e).bind fun _ _ => RefusedIff.ok _).congr
          simp [hnames, hpredicate, hcall]

/-- A filter is refused for what the store lacks for one of its comparisons. -/
theorem refusedIff_condition (stem : String) {f : Filter}
    (hready : ∀ c ∈ f.comparisons, c.Ready t.registry t.resource) :
    RefusedIff (t.condition stem f) (∃ c ∈ f.comparisons, t.LacksFor c) := by
  refine Filter.refusedIff_tree (fun c hc => ?_) (fun f => ?_) (fun connective children => ?_)
    hready
  · rw [condition]
    exact refusedIff_comparison stem hc
  · rw [condition]
    exact RefusedIff.ok _
  · rw [condition, conditions_eq_mapM]
    exact ⟨_, rfl⟩

/-- The rows of a filter are refused for what the store lacks for its comparisons. -/
theorem refusedIff_selection {request : Request}
    (hready : ∀ c ∈ request.comparisons, c.Ready t.registry t.resource) :
    RefusedIff (t.selection request.filter) (∃ c ∈ request.comparisons, t.LacksFor c) := by
  have hcondition : RefusedIff (request.filter.mapM (t.condition Joins.defaultStem)) _ :=
    request.refusedIff_filter fun f hf => refusedIff_condition Joins.defaultStem fun c hc =>
      hready c (request.mem_comparisons.2 ⟨f, hf, hc⟩)
  refine (hcondition.bind (q := False) fun condition _ => ?_).congr (by simp only [or_false])
  dsimp only
  split
  · exact RefusedIff.ok _
  · exact RefusedIff.ok _

/-- An order is refused if it goes through a relation to many rows or an embedded one. -/
theorem refusedIff_orderTerm {item : OrderItem}
    (hvalid : item.validate t.registry t.resource = .ok ()) :
    RefusedIff (t.orderTerm item)
      (t.registry.Crosses t.resource item.path (·.many = true) ∨
        t.CrossesEmbedded item.path) := by
  obtain ⟨located, hlocate⟩ := OrderItem.locate_of_validate hvalid
  rw [CrossesEmbedded, Registry.crosses_iff_of_locate hlocate,
    Registry.crosses_iff_of_locate hlocate]
  apply RefusedIff.bind_ok hlocate
  by_cases hmany : located.route.isToMany = true
  · rw [if_pos hmany]
    apply (RefusedIff.unsupported _ _ _).congr
    rw [Route.isToMany, List.any_eq_true] at hmany
    exact ⟨fun _ => Or.inl hmany, fun _ => trivial⟩
  · rw [if_neg hmany]
    apply ((refusedIff_columnOf _ _ located).bind fun _ _ => RefusedIff.ok _).congr
    rw [Route.isToMany, List.any_eq_true] at hmany
    simp only [hmany, or_false, false_or]

/-- The totals are refused if one of their paths crosses an embedded relation. -/
theorem refusedIff_totals (selection : Selection) {request : Request}
    (hvalid : request.IsValid t.registry t.resource) :
    RefusedIff (t.totals selection request.aggregate)
      (∃ path ∈ request.aggregate.paths, t.CrossesEmbedded path) := by
  have hgroups : RefusedIff (request.aggregate.groupBy.mapM t.dimension)
      (∃ path ∈ request.aggregate.groupBy, t.CrossesEmbedded path) := by
    apply RefusedIff.mapM
    intro path hpath
    obtain ⟨located, hlocate⟩ := locate_of_validateGroup (hvalid.groups path hpath)
    refine ((refusedIff_column totalsStem Param.groupBy hlocate).bind fun _ _ =>
      RefusedIff.ok _).congr (by simp)
  have hmetrics : RefusedIff (request.aggregate.metrics.mapM t.metricArgument)
      (∃ m ∈ request.aggregate.metrics, ∃ path, m.path = some path ∧ t.CrossesEmbedded path) := by
    apply RefusedIff.mapM
    intro m hm
    have hargument : RefusedIff (m.path.mapM (t.column totalsStem Param.totals)) _ :=
      RefusedIff.optionMapM fun path hpath => by
        obtain ⟨located, hlocate⟩ := Metric.locate_of_validate (hvalid.metrics m hm) hpath
        exact refusedIff_column totalsStem Param.totals hlocate
    exact (hargument.bind fun _ _ => RefusedIff.ok _).congr (by simp)
  rw [request.aggregate.exists_paths_iff, totals]
  by_cases hempty : request.aggregate.isEmpty = true
  · rw [if_pos hempty]
    rw [Aggregate.isEmpty, Bool.and_eq_true, List.isEmpty_iff, List.isEmpty_iff] at hempty
    exact (RefusedIff.ok _).congr (by simp [hempty.1, hempty.2])
  · rw [if_neg hempty]
    refine (hgroups.bind fun dimensions _ => hmetrics.bind fun arguments _ =>
      RefusedIff.ok _).congr (by simp)

/-- A relation to load is refused if it is embedded. -/
theorem refusedIff_eagerLoads {request : Request}
    (hvalid : request.IsValid t.registry t.resource)
    (htargets : ∀ relation ∈ t.resource.relations,
      ∃ target, t.registry.resource? relation.target = some target) :
    RefusedIff (t.eagerLoads request)
      (∃ relation, request.fetch.Selects t.resource relation ∧ relation.embedded = true) := by
  obtain ⟨relations, hfetched⟩ := hvalid.fetched
  have hselects := Resource.mem_of_fetched hfetched
  apply RefusedIff.bind_ok hfetched
  refine (RefusedIff.mapM (p := fun relation => relation.embedded = true)
    fun relation hrelation => ?_).congr (by simp only [hselects])
  unfold eagerLoad
  by_cases hembedded : relation.embedded = true
  · rw [if_pos hembedded]
    exact (RefusedIff.unsupported _ _ _).congr (by simp [hembedded])
  · rw [if_neg hembedded]
    obtain ⟨target, htarget⟩ := htargets relation ((hselects relation).1 hrelation).mem
    simp only [htarget]
    exact (RefusedIff.ok _).congr (by simp [hembedded])

/-- A query is refused for what the store lacks for its request. -/
theorem refusedIff_compile {request : Request}
    (hready : ∀ c ∈ request.comparisons, c.Ready t.registry t.resource)
    (hvalid : request.IsValid t.registry t.resource)
    (htargets : ∀ relation ∈ t.resource.relations,
      ∃ target, t.registry.resource? relation.target = some target) :
    RefusedIff (t.compile request) (t.Lacks request) := by
  have horder : RefusedIff (request.order.mapM t.orderTerm) _ :=
    RefusedIff.mapM fun item hitem => refusedIff_orderTerm (hvalid.order item hitem)
  have hcompile := (refusedIff_selection hready).bind fun selection _ =>
    horder.bind fun order _ => (refusedIff_totals selection hvalid).bind fun totals _ =>
      (refusedIff_eagerLoads hvalid htargets).bind fun eager _ => RefusedIff.ok
        ({ dialect := t.dialect
           page := t.page selection request order
           count := if request.paging.wantTotal then some (t.count selection) else none
           totals
           eager } : Query)
  apply hcompile.congr
  constructor
  · rintro (⟨c, hc, hcrosses | ⟨name, hname, hunknown⟩ | ⟨hcall, hlacks⟩⟩ |
      ⟨item, hitem, hmany | hcrosses⟩ | ⟨path, hpath, hcrosses⟩ |
      ⟨relation, hselects, hembedded⟩ | hfalse)
    · exact .embedded c.path (request.path_mem_of_comparison hc) hcrosses
    · exact .function c hc name hname hunknown
    · exact .operator c hc hcall hlacks
    · exact .orderThroughMany item hitem hmany
    · exact .embedded item.path (request.path_mem_of_order hitem) hcrosses
    · exact .embedded path (request.path_mem_of_totals hpath) hcrosses
    · exact .embeddedFetch relation hselects hembedded
    · exact hfalse.elim
  · rintro (⟨path, hpath, hcrosses⟩ | ⟨relation, hselects, hembedded⟩ | ⟨item, hitem, hmany⟩ |
      ⟨c, hc, name, hname, hunknown⟩ | ⟨c, hc, hcall, hlacks⟩)
    · rcases request.mem_paths.1 hpath with ⟨c, hc, rfl⟩ | ⟨item, hitem, rfl⟩ | htotal
      · exact Or.inl ⟨c, hc, Or.inl hcrosses⟩
      · exact Or.inr (Or.inl ⟨item, hitem, Or.inr hcrosses⟩)
      · exact Or.inr (Or.inr (Or.inl ⟨path, htotal, hcrosses⟩))
    · exact Or.inr (Or.inr (Or.inr (Or.inl ⟨relation, hselects, hembedded⟩)))
    · exact Or.inr (Or.inl ⟨item, hitem, Or.inl hmany⟩)
    · exact Or.inl ⟨c, hc, Or.inr (Or.inl ⟨name, hname, hunknown⟩)⟩
    · exact Or.inl ⟨c, hc, Or.inr (Or.inr ⟨hcall, hlacks⟩)⟩

end Target
end Listing.Sql

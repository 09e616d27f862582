/-
# What document stores lack

A document query of a valid request fails exactly for one of three reasons: a text search in one
field, a chain that names an unknown function, or a chain compared by an operator on containers or
by a text search. Paths never fail: embedded relations are part of the document, and references are
looked up.
-/
import Listing.Document.Query
import Listing.Proofs.Support.Basic

namespace Listing.Document

/-- The operators that cannot follow a chain of functions, negated or not. -/
def LacksAfterFunction (op : Operator) : Prop :=
  op.positive ∈ [Operator.contains, .overlap, .hasAll, .hasAny, .hasKey, .search]

namespace Target

variable (t : Target)

/-- What the store lacks for one comparison. -/
def LacksFor (c : Comparison) : Prop :=
  (c.function = none ∧ c.operator.positive = .search) ∨
    (∃ name ∈ c.functionNames, t.functions.lookup (Text.lowerAscii name) = none) ∨
    (c.function ≠ none ∧ ¬ c.IsCall ∧ LacksAfterFunction c.valueOperator)

/-- What the store lacks for a request. -/
inductive Lacks (request : Request) : Prop
  | textSearch (c : Comparison) (mem : c ∈ request.comparisons) (plain : c.function = none)
      (search : c.operator.positive = .search)
  | function (c : Comparison) (mem : c ∈ request.comparisons) (name : String)
      (named : name ∈ c.functionNames)
      (unknown : t.functions.lookup (Text.lowerAscii name) = none)
  | operatorAfterFunction (c : Comparison) (mem : c ∈ request.comparisons)
      (chain : c.function ≠ none) (compared : ¬ c.IsCall)
      (lacks : LacksAfterFunction c.valueOperator)

variable {t}

/-- A test of a field is refused if it is a text search. -/
theorem refusedIff_fieldFilter (param : String) {op : Operator} (hvalues : op.arity ≠ .function)
    (attr : Attribute) (field : String) (operand : Operand)
    (hrange : op.positive = .range → ∃ low high, operand = .bounds low high) :
    RefusedIff (fieldFilter param op.positive attr field operand) (op.positive = .search) := by
  cases hop : op.positive
  case function | predicate =>
    have harity := Operator.arity_positive op
    rw [hop] at harity
    exact absurd harity.symm hvalues
  case range =>
    obtain ⟨low, high, rfl⟩ := hrange hop
    exact (RefusedIff.ok _).congr (by simp)
  case contains =>
    unfold fieldFilter
    dsimp only
    split
    · exact (RefusedIff.ok _).congr (by simp)
    · exact (RefusedIff.ok _).congr (by simp)
  case search => exact (RefusedIff.unsupported _ _ _).congr (by simp)
  all_goals first
    | exact (RefusedIff.ok _).congr (by simp)
    | (have hpositive := Operator.positive_positive op
       rw [hop] at hpositive
       cases hpositive)

/-- A test of a computed value is refused if the operator cannot follow a chain. -/
theorem refusedIff_exprTest (param : String) {op : Operator} (hvalues : op.arity ≠ .function)
    (e : Expr) (operand : Operand)
    (hrange : op.positive = .range → ∃ low high, operand = .bounds low high) :
    RefusedIff (exprTest param op.positive e operand) (LacksAfterFunction op) := by
  unfold LacksAfterFunction
  cases hop : op.positive
  case function | predicate =>
    have harity := Operator.arity_positive op
    rw [hop] at harity
    exact absurd harity.symm hvalues
  case range =>
    obtain ⟨low, high, rfl⟩ := hrange hop
    exact (RefusedIff.ok _).congr (by simp)
  case contains | overlap | hasAll | hasAny | hasKey | search =>
    exact (RefusedIff.unsupported _ _ _).congr (by simp)
  all_goals first
    | exact (RefusedIff.ok _).congr (by simp)
    | (have hpositive := Operator.positive_positive op
       rw [hop] at hpositive
       cases hpositive)

/-- A call is refused if the function is unknown. -/
theorem refusedIff_call (param name : String) (arguments : List Expr) :
    RefusedIff (t.call param name arguments)
      (t.functions.lookup (Text.lowerAscii name) = none) := by
  unfold call
  cases hlookup : t.functions.lookup (Text.lowerAscii name) with
  | none => exact (RefusedIff.unsupported _ _ _).congr (by simp)
  | some operator => exact (RefusedIff.ok _).congr (by simp)

/-- A comparison is refused for what the store lacks for it. -/
theorem refusedIff_comparison (stem : String) {c : Comparison}
    (hready : c.Ready t.registry t.resource) :
    RefusedIff (t.comparison stem c) (t.LacksFor c) := by
  obtain ⟨located, operand, hlocate, _, hoperand⟩ := Comparison.validate_eq_ok hready.valid
  have hwell := hready.wellFormed
  unfold Comparison.WellFormed at hwell
  refine RefusedIff.bind_ok hlocate (RefusedIff.bind_ok hoperand ?_)
  cases hfunction : c.function with
  | none =>
      rw [hfunction] at hwell
      have hnames : c.functionNames = [] := by simp [Comparison.functionNames, hfunction]
      have hfilter := refusedIff_fieldFilter c.param hwell located.attr (fieldOf stem located)
        operand (Comparison.Ready.bounds_of_plain hfunction hoperand)
      exact (hfilter.bind fun _ _ => RefusedIff.ok _).congr (by simp [LacksFor, hfunction, hnames])
  | some f =>
      rw [hfunction] at hwell
      obtain ⟨_, hne, hcompared⟩ := hwell
      have hnames : c.functionNames = f.transforms ++ f.predicate?.toList := by
        rw [← f.names_eq]
        simp [Comparison.functionNames, hfunction]
      have htransforms : RefusedIff (f.transforms.foldlM (fun e name => t.call c.param name [e])
          (.field (fieldOf stem located))) _ :=
        RefusedIff.foldlM _ fun e name _ => refusedIff_call c.param name [e]
      cases hcompare : f.compare with
      | none =>
          have hcall : c.IsCall := ⟨f, hfunction, hcompare⟩
          obtain ⟨name, hname⟩ := FunctionChain.exists_predicate? hcompare hne
          simp only [hname]
          have hcalled := fun e => refusedIff_call (t := t) c.param name (e ::
            (jsonValues operand).map .value)
          apply (htransforms.bind fun e _ => (hcalled e).bind fun _ _ => RefusedIff.ok _).congr
          simp [LacksFor, hfunction, hnames, hname, hcall, or_and_right, exists_or]
      | some op =>
          have hpredicate : f.predicate? = none := by simp [FunctionChain.predicate?, hcompare]
          have hcall : ¬ c.IsCall := by simp [Comparison.IsCall, hfunction, hcompare]
          have hoperator : c.valueOperator = op := by
            simp [Comparison.valueOperator, valueOperator, hfunction, hcompare]
          simp only [hpredicate, hoperator]
          have htest := fun e => refusedIff_exprTest c.param (hcompared op hcompare).1 e operand
            (hready.bounds_of_compared hfunction hcompare hoperand)
          apply (htransforms.bind fun e _ => (htest e).bind fun _ _ => RefusedIff.ok _).congr
          simp [LacksFor, hfunction, hnames, hpredicate, hcall, hoperator]

/-- The filters of several filters are found one after the other. -/
theorem conditions_eq_mapM (stem : String) (fs : List Listing.Filter) :
    t.conditions stem fs = fs.mapM (t.condition stem) := by
  induction fs with
  | nil => rfl
  | cons f fs ih =>
      rw [conditions, List.mapM_cons, ih]

/-- A filter is refused for what the store lacks for one of its comparisons. -/
theorem refusedIff_condition (stem : String) {f : Listing.Filter}
    (hready : ∀ c ∈ f.comparisons, c.Ready t.registry t.resource) :
    RefusedIff (t.condition stem f) (∃ c ∈ f.comparisons, t.LacksFor c) := by
  refine Filter.refusedIff_tree (fun c hc => ?_) (fun f => ?_) (fun connective children => ?_)
    hready
  · rw [condition]
    exact refusedIff_comparison stem hc
  · rw [condition]
    exact RefusedIff.ok _
  · rw [condition, conditions_eq_mapM]
    exact ⟨_, rfl⟩

/-- A path that leads to an attribute has a field. -/
theorem refusedIff_field (stem param : String) {path : Path} {located : Located}
    (hlocate : t.registry.locate t.resource param path = .ok located) :
    RefusedIff (t.field stem param path) False :=
  RefusedIff.bind_ok hlocate (RefusedIff.ok _)

theorem refusedIff_order {request : Request} (hvalid : request.IsValid t.registry t.resource) :
    RefusedIff (t.order request.order) False := by
  have hkeys : RefusedIff (request.order.mapM fun item => do
      return (← t.field Joins.defaultStem Param.order item.path, item.direction)) _ :=
    RefusedIff.mapM (p := fun _ => False) fun item hitem => by
      obtain ⟨located, hlocate⟩ := OrderItem.locate_of_validate (hvalid.order item hitem)
      exact ((refusedIff_field _ _ hlocate).bind fun _ _ => RefusedIff.ok _).congr (by simp)
  exact (hkeys.bind fun _ _ => RefusedIff.ok _).congr (by simp)

/-- The relations to load are never refused. -/
theorem refusedIff_fetchStages {request : Request}
    (hvalid : request.IsValid t.registry t.resource)
    (htargets : ∀ relation ∈ t.resource.relations,
      ∃ target, t.registry.resource? relation.target = some target) :
    RefusedIff (t.fetchStages request.fetch) False := by
  obtain ⟨relations, hfetched⟩ := hvalid.fetched
  apply RefusedIff.bind_ok hfetched
  refine ((RefusedIff.mapM (p := fun _ => False) fun relation hrelation => ?_).bind
    fun _ _ => RefusedIff.ok _).congr (by simp)
  have hselects := (Resource.mem_of_fetched hfetched relation).1 (List.mem_filter.1 hrelation).1
  obtain ⟨target, htarget⟩ := htargets relation hselects.mem
  simp only [htarget]
  exact RefusedIff.ok _

/-- Totals are never refused. -/
theorem refusedIff_totals (base : List Stage) {request : Request}
    (hvalid : request.IsValid t.registry t.resource) :
    RefusedIff (t.totals base request.aggregate) False := by
  have hgroups : RefusedIff (request.aggregate.groupBy.mapM fun path => do
      return (path.label, ← t.field totalsStem Param.groupBy path)) _ :=
    RefusedIff.mapM (p := fun _ => False) fun path hpath => by
      obtain ⟨located, hlocate⟩ := locate_of_validateGroup (hvalid.groups path hpath)
      exact ((refusedIff_field _ _ hlocate).bind fun _ _ => RefusedIff.ok _).congr (by simp)
  have hmetrics : RefusedIff (request.aggregate.metrics.mapM t.metricField) _ :=
    RefusedIff.mapM (p := fun _ => False) fun m hm => by
      have hfield : RefusedIff (m.path.mapM (t.field totalsStem Param.totals)) _ :=
        RefusedIff.optionMapM (p := fun _ => False) fun path hpath => by
          obtain ⟨located, hlocate⟩ := Metric.locate_of_validate (hvalid.metrics m hm) hpath
          exact refusedIff_field _ _ hlocate
      exact (hfield.bind fun _ _ => RefusedIff.ok _).congr (by simp)
  unfold totals
  split
  · exact RefusedIff.ok _
  · exact (hgroups.bind fun dimensions _ => hmetrics.bind fun arguments _ =>
      RefusedIff.ok _).congr (by simp)

/-- A query is refused for what the store lacks for its request. -/
theorem refusedIff_compile {request : Request}
    (hready : ∀ c ∈ request.comparisons, c.Ready t.registry t.resource)
    (hvalid : request.IsValid t.registry t.resource)
    (htargets : ∀ relation ∈ t.resource.relations,
      ∃ target, t.registry.resource? relation.target = some target) :
    RefusedIff (t.compile request) (t.Lacks request) := by
  have hfilter : RefusedIff (request.filter.mapM (t.condition Joins.defaultStem)) _ :=
    request.refusedIff_filter fun f hf =>
      refusedIff_condition Joins.defaultStem fun c hc =>
        hready c (request.mem_comparisons.2 ⟨f, hf, hc⟩)
  refine (hfilter.bind fun filter _ => (refusedIff_order hvalid).bind fun order _ =>
    (refusedIff_fetchStages hvalid htargets).bind fun fetch _ =>
      (refusedIff_totals _ hvalid).bind fun totals _ => RefusedIff.ok _).congr ?_
  simp only [or_false]
  constructor
  · rintro ⟨c, hc, ⟨hplain, hsearch⟩ | ⟨name, hname, hunknown⟩ | ⟨hchain, hcall, hlacks⟩⟩
    · exact .textSearch c hc hplain hsearch
    · exact .function c hc name hname hunknown
    · exact .operatorAfterFunction c hc hchain hcall hlacks
  · rintro (⟨c, hc, hplain, hsearch⟩ | ⟨c, hc, name, hname, hunknown⟩ |
      ⟨c, hc, hchain, hcall, hlacks⟩)
    · exact ⟨c, hc, Or.inl ⟨hplain, hsearch⟩⟩
    · exact ⟨c, hc, Or.inr (Or.inl ⟨name, hname, hunknown⟩)⟩
    · exact ⟨c, hc, Or.inr (Or.inr ⟨hchain, hcall, hlacks⟩)⟩

end Target
end Listing.Document

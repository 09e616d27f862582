/-
# Match stages

Every pipeline of a query keeps documents by one stage, with the filter of the request. This filter
is well formed wherever it is put together from the request alone: a node of a tree that was read
has a child, a search has a word, a list of operands has an item.

It need not be where it is put together from operands. An empty object has no entries to compare, so
that documents which should contain nothing but empty objects are asked for by a conjunction of
nothing. Keys become names on the path of a field, whether they are empty or not. And what is sent
as it is may be an expression, or an object of operators. The exact condition is stated leaf by
leaf; what it asks of fields themselves is a matter of the schema.
-/
import Listing.Proofs.PhraseSearch
import Listing.Proofs.PipelineScope
import Listing.Proofs.Semantics.DocumentForm

namespace Listing.Document

/-! ### The filters of pipelines -/

/-- The filter by which a stage keeps documents. -/
def Stage.filter? : Stage → Option Filter
  | .keep filter => some filter
  | _ => none

/-- The filters by which stages keep documents. -/
def keptBy (stages : List Stage) : List Filter := stages.filterMap Stage.filter?

theorem mem_keptBy {stages : List Stage} {filter : Filter} :
    filter ∈ keptBy stages ↔ .keep filter ∈ stages := by
  rw [keptBy, List.mem_filterMap]
  constructor
  · rintro ⟨stage, hstage, hfilter⟩
    cases stage <;> cases hfilter
    exact hstage
  · exact fun hstage => ⟨_, hstage, rfl⟩

theorem keptBy_append (stages stages' : List Stage) :
    keptBy (stages ++ stages') = keptBy stages ++ keptBy stages' := List.filterMap_append

theorem keptBy_map_keep (filters : List Filter) : keptBy (filters.map .keep) = filters := by
  rw [keptBy, List.filterMap_map]
  exact List.filterMap_some

/-- Lookups keep all documents. -/
theorem filter?_of_mem_lookupStages {relation : Relation} {collection localField label : String}
    {stage : Stage} (hstage : stage ∈ lookupStages relation collection localField label) :
    stage.filter? = none := by
  rcases eq_of_mem_lookupStages hstage with rfl | rfl <;> rfl

theorem keptBy_lookups (joins : Joins) : keptBy (lookups joins) = [] := by
  refine List.filterMap_eq_nil_iff.2 fun stage hstage => ?_
  obtain ⟨route, _, hop, _, _, hmem⟩ := mem_lookups hstage
  exact filter?_of_mem_lookupStages hmem

theorem keptBy_unwindStages (joins : Joins) : keptBy (unwindStages joins) = [] := by
  refine List.filterMap_eq_nil_iff.2 fun stage hstage => ?_
  obtain ⟨route, _, _, rfl⟩ := mem_unwindStages hstage
  rfl

/-- Groups are made, ordered and cut without a filter. -/
theorem keptBy_totalsStages (a : Aggregate) (dimensions : List (String × String))
    (accumulators : List (String × Accumulator)) (limit : Option Nat) :
    keptBy (totalsStages a dimensions accumulators limit) = [] := by
  have hgrouping : keptBy (groupingStages dimensions accumulators) = [] := by
    unfold groupingStages
    split <;> rfl
  have horder (labels metrics : List String) : keptBy (orderStages labels metrics limit) = [] := by
    unfold orderStages
    split
    · rfl
    · cases limit with
      | none => rfl
      | some n =>
          dsimp only
          rw [Option.map_some, Option.getD_some, limitStages]
          split <;> rfl
  rw [totalsStages, keptBy_append, keptBy_append, hgrouping, horder]
  rfl

namespace Target

variable {t : Target} {request : Request} {query : Query}

theorem keptBy_sharedStages (condition : Option Filter) :
    keptBy (t.sharedStages request condition) = condition.toList := by
  rw [sharedStages, keptBy_append, keptBy_lookups, keptBy_map_keep, List.nil_append]

/-- Every pipeline keeps documents by the filter of the request, and by nothing else. -/
theorem keptBy_pipelines (hcompile : t.compile request = .ok query) :
    ∃ condition, request.filter.mapM (t.condition Joins.defaultStem) = .ok condition ∧
      ∀ stages ∈ query.pipelines, keptBy stages = condition.toList := by
  obtain ⟨condition, order, hcondition, -, htotals, -, hpipeline, hcount⟩ :=
    compile_eq_shared hcompile
  refine ⟨condition, hcondition, fun stages hstages => ?_⟩
  have hcut : keptBy (cutStages request.paging) = [] := by
    unfold cutStages
    split <;> cases request.paging.limit <;> rfl
  have hunset (labels : List String) : keptBy (unsetStages labels) = [] := by
    unfold unsetStages
    split <;> rfl
  have hload : keptBy ((t.loaded request).flatMap loadStages) = [] := by
    refine List.filterMap_eq_nil_iff.2 fun stage hstage => ?_
    obtain ⟨hop, _, hmem⟩ := List.mem_flatMap.1 hstage
    exact filter?_of_mem_lookupStages hmem
  rcases List.mem_cons.1 hstages with rfl | hstages
  · simp only [hpipeline, keptBy_append, keptBy_sharedStages, hcut, hunset, hload, List.append_nil]
    exact List.append_nil _
  · rcases List.mem_append.1 hstages with hcounted | htotalled
    · rw [hcount, Option.mem_toList] at hcounted
      split at hcounted <;> cases hcounted
      rw [keptBy_append, keptBy_sharedStages]
      exact List.append_nil _
    · obtain ⟨q, hq, rfl⟩ := List.mem_map.1 htotalled
      rw [Option.mem_toList.1 hq] at htotals
      obtain ⟨groups, arguments, _, _, hgrouped⟩ := totals_eq_some htotals
      rw [hgrouped, keptBy_append, keptBy_append, keptBy_append, keptBy_sharedStages,
        keptBy_lookups, keptBy_unwindStages, keptBy_totalsStages, List.append_nil, List.append_nil,
        List.append_nil]

end Target

/-! ### The fields of attributes -/

/-- No column and no relation of a resource is named like an operator. -/
structure SparesOperators (resource : Resource) : Prop where
  columns : ∀ attr ∈ resource.attributes, isMarked attr.columnName = false
  relations : ∀ relation ∈ resource.relations, isMarked relation.name = false

/-- A field is no operator where neither the path to it nor its name is. -/
theorem isMarked_below_of {path : Option String} {name : String}
    (hpath : ∀ p ∈ path, isMarked p = false) (hname : isMarked name = false) :
    isMarked (below path name) = false := by
  cases path with
  | none => exact hname
  | some p => exact isMarked_below (hpath p rfl) name

/-- The alias of a route begins with its stem. -/
theorem isMarked_aliasName (route : Route) :
    isMarked (route.aliasName Joins.defaultStem) = false := by
  rw [isMarked, Route.aliasName, String.toList_append]
  rfl

/-- A route through relations that are not named like operators leads to no operator. -/
theorem isMarked_fieldOfReversed {route : Route}
    (hroute : ∀ hop ∈ route, isMarked hop.relation.name = false) :
    ∀ path ∈ fieldOfReversed Joins.defaultStem route, isMarked path = false := by
  induction route with
  | nil => simp [fieldOfReversed]
  | cons hop before ih =>
      intro path hpath
      rw [fieldOfReversed] at hpath
      split at hpath
      · cases hpath
        exact isMarked_below_of (ih fun other hother => hroute other (List.mem_cons_of_mem _ hother))
          (hroute hop List.mem_cons_self)
      · cases hpath
        exact isMarked_aliasName _

namespace Target

variable {t : Target}

/-- The field of an attribute is no operator where the schema names none like one. -/
theorem isMarked_fieldOf (hnames : ∀ entry ∈ t.registry.entries, SparesOperators entry.resource)
    (hresource : SparesOperators t.resource) {param : String} {path : Path} {located : Located}
    (hlocate : t.registry.locate t.resource param path = .ok located) :
    isMarked (fieldOf Joins.defaultStem located) = false := by
  obtain ⟨howners, howned⟩ := Registry.holds_of_locate hnames hresource hlocate
  refine isMarked_below_of (isMarked_fieldOfReversed fun hop hhop => ?_)
    (howned.columns _ (Registry.attr_mem_of_locate hlocate))
  obtain ⟨owner, howner, hrelation⟩ := howners hop (List.mem_reverse.1 hhop)
  exact howner.relations _ hrelation

end Target

/-! ### Operands -/

/-- What should be contained is compared by its entries if it is an object: each key continues the
path of the field, and the value under it stands for the field. -/
def isWellFormedItem : Json → Bool
  | .object entries => entries.all fun entry => isNamed entry.1 && isWellFormedValue entry.2
  | _ => true

/-- The values of an operand are well formed where an operator of the query language puts them. -/
def IsWellFormedFor (op : Operator) (kind : Kind) (operand : Operand) : Prop :=
  match op with
  | .among | .overlap => ∀ s ∈ operand.values, isWellFormedValue s.toJson = true
  | .contains =>
    if kind = .collection then ∀ s ∈ operand.values, isWellFormedValue s.toJson = true
    else (∃ s ∈ operand.values, s.toJson ≠ .object []) ∧
      ∀ s ∈ operand.values, isWellFormedItem s.toJson = true
  | .hasKey => isNamed operand.single.asText = true
  | .hasAll | .hasAny => ∀ s ∈ operand.values, isNamed s.asText = true
  | _ => True

/-- The values of an operand are well formed where an operator after a chain puts them. The pattern
for an empty end is a lone dollar sign. -/
def IsWellFormedAfter (op : Operator) (operand : Operand) : Prop :=
  match op with
  | .endsWith | .iendsWith => operand.single.asText ≠ ""
  | .iexact | .icontains | .startsWith | .istartsWith | .isNull | .isNotNull => True
  | .range | .among => ∀ s ∈ operand.values, isWellFormedExpr s.toJson = true
  | _ => isWellFormedExpr operand.single.toJson = true

/-- The operand of a comparison is well formed where the comparison puts it. -/
def OperandIsWellFormed (c : Comparison) (attr : Attribute) (operand : Operand) : Prop :=
  match c.function with
  | none => IsWellFormedFor c.operator.positive attr.kind operand
  | some function => match function.predicate? with
    | some _ => ∀ s ∈ operand.values, isWellFormedExpr s.toJson = true
    | none => IsWellFormedAfter c.valueOperator.positive operand

/-- A leaf is compiled to a well-formed filter: its fields are named, and so is what its operand
adds to them. -/
def Target.LeafIsWellFormed (t : Target) (stem : String) : Listing.Filter → Prop
  | .comparison c => ∀ located operand,
    t.registry.locate t.resource c.param c.path = .ok located →
    Operand.ofComparison c located.attr = .ok operand →
      isNamed (fieldOf stem located) = true ∧ OperandIsWellFormed c located.attr operand
  | .fullText f => ∀ attr ∈ f.attributes.filterMap t.resource.attribute?,
    isNamed attr.columnName = true
  | .node .. => True

section Expressions

variable {e test : Expr} {param : String} {op : Operator} {operand : Operand}

theorem Expr.isWellFormed_values (vs : List Json) :
    (∀ argument ∈ vs.map Expr.value, argument.IsWellFormed) ↔
      ∀ v ∈ vs, isWellFormedExpr v = true := by
  rw [List.forall_mem_map]
  rfl

theorem isWellFormed_compareExpr (hcomputed : e.isValue = false) (comparator : Comparator)
    (v : Json) :
    (compareExpr comparator e v).IsWellFormed ↔ e.IsWellFormed ∧ isWellFormedExpr v = true := by
  have hname : isMarked comparator.name = true ∧ comparator.name ≠ "$literal" := by
    cases comparator <;> decide
  rw [compareExpr, Expr.isWellFormed_apply hname.1 hname.2 hcomputed, List.forall_mem_singleton]
  rfl

theorem isWellFormed_datePart (hcomputed : e.isValue = false) (op : Operator) (v : Json) :
    (Expr.apply "$eq" [.apply (datePart op) [e], .value v]).IsWellFormed ↔
      e.IsWellFormed ∧ isWellFormedExpr v = true := by
  have hname : isMarked (datePart op) = true ∧ datePart op ≠ "$literal" := by
    unfold datePart
    split <;> decide
  rw [Expr.isWellFormed_apply (by decide) (by decide) rfl,
    Expr.isWellFormed_apply hname.1 hname.2 hcomputed, List.forall_mem_singleton]
  simp [Expr.IsWellFormed, Expr.toJson]

/-- A pattern is no path, unless it consists of the sign for the end alone. -/
theorem isWellFormedExpr_pattern (op : Operator) (needle : String) :
    isWellFormedExpr (.string (regexOf op needle).1) = true ↔
      (op = .endsWith ∨ op = .iendsWith → needle ≠ "") := by
  rcases isMarked_pattern op needle with hplain | ⟨hop, hempty, hsign⟩
  · refine iff_of_true (by simp [isWellFormedExpr, hplain]) ?_
    rintro (rfl | rfl) rfl <;> cases hplain
  · rw [hsign]
    exact iff_of_false (by decide) fun hneedle => hneedle hop hempty

/-- A match is well formed if its input is, unless its pattern is a lone sign. -/
theorem isWellFormed_match (e : Expr) (op : Operator) (needle : String) :
    (Expr.regexMatch e (regexOf op needle).1 (regexOf op needle).2).IsWellFormed ↔
      e.IsWellFormed ∧ (op = .endsWith ∨ op = .iendsWith → needle ≠ "") := by
  have hoptions : isMarked (regexOf op needle).2 = false := by
    cases op <;> simp [regexOf, isMarked]
  rw [Expr.isWellFormed_regexMatch hoptions, isWellFormedExpr_pattern]

/-- The test of a computed value is well formed if the value and the operand are. -/
theorem isWellFormed_exprTest (hcomputed : e.isValue = false)
    (htest : exprTest param op e operand = .ok test) :
    test.IsWellFormed ↔ e.IsWellFormed ∧ IsWellFormedAfter op operand := by
  have hmatch := isWellFormed_match e op operand.single.asText
  unfold exprTest at htest
  cases op
  case range =>
    cases operand <;> cases htest
    rename_i low high
    rw [Expr.isWellFormed_apply (by decide) (by decide) rfl, List.forall_mem_singleton,
      isWellFormed_compareExpr hcomputed, isWellFormed_compareExpr hcomputed]
    simp only [IsWellFormedAfter, Operand.values, List.forall_mem_cons, List.not_mem_nil,
      false_imp_iff, implies_true, and_true]
    tauto
  case among =>
    cases htest
    rw [Expr.isWellFormed_apply (by decide) (by decide) hcomputed, List.forall_mem_singleton]
    show _ ∧ areWellFormedExprs (operand.values.map Scalar.toJson) = true ↔ _
    rw [areWellFormedExprs_eq_all, List.all_map, List.all_eq_true]
    rfl
  case iexact | icontains | startsWith | istartsWith | endsWith | iendsWith =>
    cases htest
    exact hmatch.trans (by simp [IsWellFormedAfter])
  case year | month | day =>
    cases htest
    exact isWellFormed_datePart hcomputed _ _
  case isNull | isNotNull =>
    cases htest
    rw [isWellFormed_compareExpr hcomputed]
    simp [IsWellFormedAfter, isWellFormedExpr]
  all_goals first
    | (cases htest; exact isWellFormed_compareExpr hcomputed _ _)
    | cases htest

end Expressions

section Tests

variable {param : String} {op : Operator} {attr : Attribute} {field : String} {operand : Operand}
  {filter : Filter}

/-- Only an empty object requires nothing. -/
theorem containment_eq_nil {item : Json} : containment field item = [] ↔ item = .object [] := by
  cases item with
  | object entries => simp [containment]
  | _ => exact iff_of_false (List.cons_ne_nil _ _) Json.noConfusion

/-- What is required of an item is well formed if the item and the field are. -/
theorem isWellFormed_containment (hfield : isMarked field = false) {item : Json}
    (hitem : item ≠ .object []) :
    (∀ f ∈ containment field item, f.IsWellFormed) ↔
      isNamed field = true ∧ isWellFormedItem item = true := by
  cases item with
  | object entries =>
      have hentry (entry : String × Json) :
          (Filter.field (field ++ "." ++ entry.1) (.is entry.2)).IsWellFormed ↔
            isNamed field = true ∧ (isNamed entry.1 && isWellFormedValue entry.2) = true := by
        rw [Filter.isWellFormed_field (isMarked_below hfield _), isNamed_below, Bool.and_eq_true,
          Bool.and_eq_true, and_assoc]
        rfl
      obtain ⟨first, hfirst⟩ : ∃ entry, entry ∈ entries :=
        List.exists_mem_of_ne_nil entries fun hnil => hitem (hnil ▸ rfl)
      show (∀ f ∈ entries.map _, _) ↔ _
      rw [List.forall_mem_map, isWellFormedItem, List.all_eq_true]
      simp only [hentry]
      exact ⟨fun hall => ⟨(hall first hfirst).1, fun entry hmem => (hall entry hmem).2⟩,
        fun hall entry hmem => ⟨hall.1, hall.2 entry hmem⟩⟩
  | _ =>
      show (∀ f ∈ [Filter.field field (.compare .eq _)], f.IsWellFormed) ↔ _
      rw [List.forall_mem_singleton, Filter.isWellFormed_field hfield]
      exact and_congr_right fun _ => iff_of_true trivial rfl

/-- What is required of several items is well formed if it is anything, and the items and the field
are well formed. -/
theorem isWellFormed_contains (hfield : isMarked field = false) (items : List Json) :
    (Filter.all (items.flatMap (containment field))).IsWellFormed ↔
      isNamed field = true ∧ (∃ item ∈ items, item ≠ .object []) ∧
        ∀ item ∈ items, isWellFormedItem item = true := by
  have hnonempty : items.flatMap (containment field) ≠ [] ↔ ∃ item ∈ items, item ≠ .object [] := by
    rw [Ne, List.flatMap_eq_nil_iff]
    simp only [containment_eq_nil, not_forall, exists_prop]
  rw [Filter.isWellFormed_all, hnonempty]
  constructor
  · rintro ⟨⟨item, hmem, hitem⟩, hall⟩
    have hof (other : Json) (hother : other ∈ items) (hne : other ≠ .object []) :=
      (isWellFormed_containment hfield hne).1 fun f hf =>
        hall f (List.mem_flatMap.2 ⟨other, hother, hf⟩)
    refine ⟨(hof item hmem hitem).1, ⟨item, hmem, hitem⟩, fun other hother => ?_⟩
    by_cases hne : other = .object []
    · rw [hne]
      rfl
    · exact (hof other hother hne).2
  · rintro ⟨hnamed, hsome, hall⟩
    refine ⟨hsome, fun f hf => ?_⟩
    obtain ⟨item, hmem, hf⟩ := List.mem_flatMap.1 hf
    have hne : item ≠ .object [] := fun hempty => by
      rw [containment_eq_nil.2 hempty] at hf
      cases hf
    exact (isWellFormed_containment hfield hne).2 ⟨hnamed, hall item hmem⟩ f hf

/-- The test of a key is well formed if key and field are. -/
theorem isWellFormed_hasKey (hfield : isMarked field = false) (key : Json) :
    (hasKey field key).IsWellFormed ↔ isNamed field = true ∧ isNamed key.text = true := by
  rw [hasKey, Filter.isWellFormed_field (isMarked_below hfield _), isNamed_below, Bool.and_eq_true]
  exact and_iff_left trivial

/-- The tests of some keys are well formed if the keys and the field are. -/
theorem isWellFormed_hasKeys (hfield : isMarked field = false) (hvalues : operand.values ≠ []) :
    (∀ f ∈ (jsonValues operand).map (hasKey field), f.IsWellFormed) ↔
      isNamed field = true ∧ ∀ s ∈ operand.values, isNamed s.asText = true := by
  obtain ⟨first, hfirst⟩ := List.exists_mem_of_ne_nil _ hvalues
  rw [jsonValues, List.map_map, List.forall_mem_map]
  simp only [Function.comp_apply, isWellFormed_hasKey hfield]
  exact ⟨fun hall => ⟨(hall first hfirst).1, fun s hs => (hall s hs).2⟩,
    fun hall s hs => ⟨hall.1, hall.2 s hs⟩⟩

/-- The filter of a comparison without functions is well formed if its field and its operand are. -/
theorem isWellFormed_fieldFilter (hfield : isMarked field = false)
    (hlist : op.arity = .list → operand.values ≠ [])
    (hdate : op ∈ [Operator.year, .month, .day] → ∃ n, operand.single = .int n)
    (hfilter : fieldFilter param op attr field operand = .ok filter) :
    filter.IsWellFormed ↔ isNamed field = true ∧ IsWellFormedFor op attr.kind operand := by
  have hvalues : (∀ v ∈ jsonValues operand, isWellFormedValue v = true) ↔
      ∀ s ∈ operand.values, isWellFormedValue s.toJson = true := List.forall_mem_map
  unfold fieldFilter at hfilter
  cases op
  case range =>
    cases operand <;> cases hfilter
    exact Filter.isWellFormed_field hfield _
  case among | overlap =>
    cases hfilter
    rw [Filter.isWellFormed_field hfield]
    exact and_congr_right fun _ => hvalues
  case contains =>
    dsimp only at hfilter
    unfold IsWellFormedFor
    dsimp only
    split at hfilter
    · rename_i hkind
      cases hfilter
      rw [Filter.isWellFormed_field hfield, if_pos hkind]
      exact and_congr_right fun _ => hvalues
    · rename_i hkind
      cases hfilter
      rw [isWellFormed_contains hfield, if_neg hkind, jsonValues]
      simp
  case hasKey =>
    cases hfilter
    exact isWellFormed_hasKey hfield _
  case hasAll | hasAny =>
    cases hfilter
    have hne : (jsonValues operand).map (hasKey field) ≠ [] := by
      simpa [jsonValues] using hlist rfl
    first
      | rw [Filter.isWellFormed_all]
      | rw [Filter.isWellFormed_or]
    rw [and_iff_right hne]
    exact isWellFormed_hasKeys hfield (hlist rfl)
  case year | month | day =>
    cases hfilter
    obtain ⟨n, hn⟩ := hdate (by decide)
    rw [Filter.isWellFormed_expr, isWellFormed_datePart rfl, Expr.isWellFormed_field, hn]
    exact and_congr_right fun _ => iff_of_true rfl trivial
  all_goals first
    | (cases hfilter; exact Filter.isWellFormed_field hfield _)
    | cases hfilter

end Tests

/-- A list that is read has an item. -/
theorem values_ne_nil_of_readFor {op : Operator} (harity : op.arity = .list)
    {kind elementKind : Kind} {value : Json} {operand : Operand}
    (hread : Operand.readFor op kind elementKind value = .ok operand) : operand.values ≠ [] := by
  obtain ⟨given, items, hgiven, hitems, rfl⟩ := Operand.many_of_readFor harity hread
  have hne : given ≠ [] := by
    unfold Operand.readList at hgiven
    split at hgiven
    · cases hgiven
    · rename_i hnonempty
      cases hgiven
      exact fun hnil => hnonempty (hnil ▸ rfl)
    · cases hgiven
  have hlength := Result.length_of_mapM_eq_ok hitems
  rw [Operand.values, ← List.length_pos_iff, hlength, List.length_pos_iff]
  exact hne

namespace Target

variable {t : Target} {field : String} {param : String}

/-- What a chain computes is well formed if the field that it begins with is. -/
theorem isWellFormed_transforms
    (hfunctions : ∀ f ∈ t.functions, isMarked f.2 = true ∧ f.2 ≠ "$literal")
    {names : List String} {e : Expr}
    (htransforms : names.foldlM (fun e name => t.call param name [e]) (.field field) = .ok e) :
    e.isValue = false ∧ (e.IsWellFormed ↔ isNamed field = true) := by
  refine Result.foldlM_invariant
    (fun e => e.isValue = false ∧ (e.IsWellFormed ↔ isNamed field = true))
    (fun e name called he hcall => ?_) ⟨rfl, Expr.isWellFormed_field field⟩ htransforms
  obtain ⟨f, hf, rfl⟩ := call_eq_ok hcall
  obtain ⟨hoperator, hliteral⟩ := hfunctions f hf
  refine ⟨rfl, ?_⟩
  rw [Expr.isWellFormed_apply hoperator hliteral he.1, he.2]
  simp

/-- The filter of a comparison is well formed if its field and its operand are. -/
theorem isWellFormed_comparison {stem : String} {c : Comparison} {located : Located}
    {operand : Operand} {filter : Filter}
    (hfunctions : ∀ f ∈ t.functions, isMarked f.2 = true ∧ f.2 ≠ "$literal")
    (hlocate : t.registry.locate t.resource c.param c.path = .ok located)
    (hoperand : Operand.ofComparison c located.attr = .ok operand)
    (hfield : isMarked (fieldOf stem located) = false)
    (hcompile : t.comparison stem c = .ok filter) :
    filter.IsWellFormed ↔
      isNamed (fieldOf stem located) = true ∧ OperandIsWellFormed c located.attr operand := by
  unfold comparison at hcompile
  rw [hlocate] at hcompile
  obtain ⟨_, hlocated, hcompile⟩ := Result.bind_eq_ok.1 hcompile
  cases hlocated
  dsimp only at hcompile
  rw [hoperand] at hcompile
  obtain ⟨_, hread, hcompile⟩ := Result.bind_eq_ok.1 hcompile
  cases hread
  unfold OperandIsWellFormed
  cases hfunction : c.function with
  | none =>
      rw [hfunction] at hcompile
      obtain ⟨positive, hpositive, hfilter⟩ := Result.bind_eq_ok.1 hcompile
      cases hfilter
      have hof := Operand.readFor_of_ofComparison hfunction hoperand
      rw [Filter.isWellFormed_negateIf]
      refine isWellFormed_fieldFilter hfield (fun harity => ?_) (fun hdate => ?_) hpositive
      · rw [Operator.arity_positive] at harity
        exact values_ne_nil_of_readFor harity hof
      · exact single_of_date hdate hof
  | some function =>
      rw [hfunction] at hcompile
      obtain ⟨e, htransforms, hcompile⟩ := Result.bind_eq_ok.1 hcompile
      obtain ⟨hcomputed, hnamed⟩ := isWellFormed_transforms hfunctions htransforms
      dsimp only
      cases hpredicate : function.predicate? with
      | some name =>
          rw [hpredicate] at hcompile
          obtain ⟨called, hcalled, hfilter⟩ := Result.bind_eq_ok.1 hcompile
          cases hfilter
          obtain ⟨f, hf, rfl⟩ := call_eq_ok hcalled
          obtain ⟨hoperator, hliteral⟩ := hfunctions f hf
          rw [Filter.isWellFormed_expr, Expr.isWellFormed_apply hoperator hliteral hcomputed,
            hnamed, Expr.isWellFormed_values, jsonValues, List.forall_mem_map]
      | none =>
          rw [hpredicate] at hcompile
          obtain ⟨test, htest, hfilter⟩ := Result.bind_eq_ok.1 hcompile
          cases hfilter
          rw [Filter.isWellFormed_negateIf, Filter.isWellFormed_expr,
            isWellFormed_exprTest hcomputed htest, hnamed]

/-- The filter of a valid search with a word is well formed if the columns that it searches are
named. -/
theorem isWellFormed_fullText {f : FullText} (hresource : SparesOperators t.resource)
    (hvalid : f.validate t.resource = .ok ()) (hwords : f.words ≠ []) :
    (t.fullText f).IsWellFormed ↔
      ∀ attr ∈ f.attributes.filterMap t.resource.attribute?, isNamed attr.columnName = true := by
  obtain ⟨searched, hsearched⟩ :=
    List.exists_mem_of_ne_nil _ (FullText.searched_ne_nil hvalid)
  have hcolumn : ∀ attr ∈ f.attributes.filterMap t.resource.attribute?,
      isMarked attr.columnName = false := by
    intro attr hattr
    obtain ⟨_, _, hfound⟩ := List.mem_filterMap.1 hattr
    exact hresource.columns attr (List.mem_of_find?_eq_some hfound)
  have hword (word : String) : (Filter.or (((f.attributes.filterMap t.resource.attribute?).map
      (·.columnName)).map fun field =>
        .field field (.regex (Text.escapeRegex word) "i"))).IsWellFormed ↔
      ∀ attr ∈ f.attributes.filterMap t.resource.attribute?, isNamed attr.columnName = true := by
    rw [Filter.isWellFormed_or, List.map_map, List.forall_mem_map,
      and_iff_right (List.ne_nil_of_mem (List.mem_map_of_mem hsearched))]
    refine forall₂_congr fun attr hattr => ?_
    rw [Function.comp_apply, Filter.isWellFormed_field (hcolumn attr hattr)]
    exact and_iff_left trivial
  obtain ⟨word, hmem⟩ := List.exists_mem_of_ne_nil _ hwords
  have hall {tests : String → Filter} (htest : ∀ word, (tests word).IsWellFormed ↔
      ∀ attr ∈ f.attributes.filterMap t.resource.attribute?, isNamed attr.columnName = true) :
      (f.words.map tests ≠ [] ∧ ∀ test ∈ f.words.map tests, test.IsWellFormed) ↔
        ∀ attr ∈ f.attributes.filterMap t.resource.attribute?, isNamed attr.columnName = true := by
    rw [and_iff_right (List.ne_nil_of_mem (List.mem_map_of_mem hmem)), List.forall_mem_map]
    simp only [htest]
    exact ⟨fun hwords => hwords word hmem, fun hnamed _ _ => hnamed⟩
  unfold fullText
  dsimp only
  split
  · rw [Filter.isWellFormed_and]
    exact hall hword
  · rw [Filter.isWellFormed_or]
    exact hall hword

/-- The filter of a request that was read is well formed if all of its leaves are. -/
theorem isWellFormed_condition
    (hnames : ∀ entry ∈ t.registry.entries, SparesOperators entry.resource)
    (hresource : SparesOperators t.resource)
    (hfunctions : ∀ f ∈ t.functions, isMarked f.2 = true ∧ f.2 ≠ "$literal")
    {f : Listing.Filter} (hbuilt : f.Built fun leaf => leaf.IsFromKey ∧
      leaf.validateLeaf t.registry t.resource = .ok ()) {filter : Filter}
    (hcompile : t.condition Joins.defaultStem f = .ok filter) :
    filter.IsWellFormed ↔ ∀ leaf ∈ f.leaves, t.LeafIsWellFormed Joins.defaultStem leaf := by
  induction hbuilt generalizing filter with
  | comparison c hleaf =>
      obtain ⟨located, operand, hlocate, _, hoperand⟩ := Comparison.validate_eq_ok hleaf.2
      rw [condition] at hcompile
      show _ ↔ ∀ leaf ∈ [Listing.Filter.comparison c], _
      rw [isWellFormed_comparison hfunctions hlocate hoperand
        (isMarked_fieldOf hnames hresource hlocate) hcompile, List.forall_mem_singleton,
        LeafIsWellFormed]
      constructor
      · intro hformed located' operand' hlocate' hoperand'
        rw [hlocate] at hlocate'
        cases hlocate'
        rw [hoperand] at hoperand'
        cases hoperand'
        exact hformed
      · exact fun hformed => hformed located operand hlocate hoperand
  | fullText f hleaf =>
      obtain ⟨⟨_, _, _, _, hkey⟩, hvalid⟩ := hleaf
      rw [condition] at hcompile
      cases hcompile
      show _ ↔ ∀ leaf ∈ [Listing.Filter.fullText f], _
      rw [isWellFormed_fullText hresource hvalid (FullText.words_ne_nil_of_ofKey hkey),
        List.forall_mem_singleton]
      rfl
  | node connective children nonempty single built ih =>
      rw [condition, conditions_eq_mapM] at hcompile
      obtain ⟨parts, hparts, hpure⟩ := Result.bind_eq_ok.1 hcompile
      have hne : parts ≠ [] := by
        rw [← List.length_pos_iff, Result.length_of_mapM_eq_ok hparts, List.length_pos_iff]
        exact nonempty
      have hall : (∀ part ∈ parts, part.IsWellFormed) ↔
          ∀ leaf ∈ children.flatMap Listing.Filter.leaves,
            t.LeafIsWellFormed Joins.defaultStem leaf := by
        simp only [List.mem_flatMap]
        constructor
        · rintro hformed leaf ⟨child, hchild, hleaf⟩
          obtain ⟨part, hpart, hcondition⟩ := Result.mapM_eq_ok_mem hparts hchild
          exact (ih child hchild hcondition).1 (hformed part hpart) leaf hleaf
        · intro hformed part hpart
          obtain ⟨child, hchild, hcondition⟩ := Result.mem_of_mapM_eq_ok hparts hpart
          exact (ih child hchild hcondition).2 fun leaf hleaf =>
            hformed leaf ⟨child, hchild, hleaf⟩
      rw [Listing.Filter.leaves_node, ← hall]
      cases hpure
      cases connective
      · exact Filter.isWellFormed_and.trans (and_iff_right hne)
      · exact Filter.isWellFormed_or.trans (and_iff_right hne)
      · exact Filter.isWellFormed_nor.trans (and_iff_right hne)

/-- The pipelines of a valid request keep documents by a filter that is well formed at every depth,
exactly if each comparison and each search of the request is: the fields of their attributes have no
empty name, and neither have the keys that an operand adds to them; of what should be contained in a
structured document, something is no empty object; and what stands in an expression or for a field
as it is, is well formed itself.

No column and no relation may be named like an operator, and the functions that a request may call
stand for operators other than `$literal`. -/
theorem matchStages_wellFormed_iff {params : Params} {options : Options} {request : Request}
    {query : Query} (hnames : ∀ entry ∈ t.registry.entries, SparesOperators entry.resource)
    (hresource : SparesOperators t.resource)
    (hfunctions : ∀ f ∈ t.functions, isMarked f.2 = true ∧ f.2 ≠ "$literal")
    (hread : Request.ofParams params t.resource options = .ok request)
    (hvalid : request.validate t.registry t.resource = .ok ())
    (hcompile : t.compile request = .ok query) :
    (∀ stages ∈ query.pipelines, ∀ filter, .keep filter ∈ stages →
        isWellFormed filter.toJson = true) ↔
      ∀ f ∈ request.filter, ∀ leaf ∈ f.leaves, t.LeafIsWellFormed Joins.defaultStem leaf := by
  have hleaves := (Request.isValid_of_validate hvalid).leaves
  have hbuilt := Request.built_fromKeys hread
  obtain ⟨condition, hcondition, hkept⟩ := keptBy_pipelines hcompile
  have hstage {stages : List Stage} (hstages : stages ∈ query.pipelines) {filter : Filter} :
      .keep filter ∈ stages ↔ filter ∈ condition := by
    rw [← mem_keptBy, hkept stages hstages]
    exact Option.mem_toList
  have hpipelines : (∀ stages ∈ query.pipelines, ∀ filter, .keep filter ∈ stages →
      isWellFormed filter.toJson = true) ↔ ∀ filter ∈ condition, filter.IsWellFormed :=
    ⟨fun hformed filter hfilter =>
        hformed _ List.mem_cons_self filter ((hstage List.mem_cons_self).2 hfilter),
      fun hformed _ hstages filter hfilter => hformed filter ((hstage hstages).1 hfilter)⟩
  rw [hpipelines]
  cases hrequest : request.filter with
  | none =>
      rw [hrequest] at hcondition
      cases hcondition
      exact iff_of_true nofun nofun
  | some f =>
      rw [hrequest] at hcondition hbuilt hleaves
      obtain ⟨filter, hfilter, hpure⟩ := Result.map_eq_ok.1 hcondition
      cases hpure
      simp only [Option.mem_def, Option.some.injEq, forall_eq']
      exact isWellFormed_condition hnames hresource hfunctions
        ((hbuilt f rfl).and_leaves (hleaves f rfl)) hfilter

end Target

namespace Workshop

/-- Products with a name and a structured document. -/
def resource : Resource where
  name := "product"
  storage := "products"
  attributes := [{ name := "name", kind := .string }, { name := "specs", kind := .json }]

def target : Target where
  functions := Backend.documentFunctions
  registry := { entries := [⟨resource, .documentWith []⟩] }
  resource := resource

/-- One comparison, as a request. -/
def asks (param attr : String) (operator : Operator) (function : Option FunctionChain)
    (value : Json) : Request where
  filter := some (.comparison { param, path := ⟨[], attr⟩, operator, function, value })

/-- The specification has the key `color`. -/
def hasColor : Request := asks "specs__haskey" "specs" .hasKey none (.string "color")

/-- The specification holds an empty object. -/
def holdsNothing : Request :=
  asks "search.specs__contains" "specs" .contains none (.array [.object []])

/-- The specification has a key without a name. -/
def hasNoName : Request := asks "specs__haskey" "specs" .hasKey none (.string "")

/-- The name in small letters ends with nothing. -/
def endsWithNothing : Request :=
  asks "name__func__lower__endswith" "name" .function (some ⟨["lower"], some .endsWith⟩)
    (.string "")

/-- The pipeline of a request with a filter. -/
def pipelineOf (filter : Filter) : List Stage := [.keep filter, .sort [("id", .ascending)]]

theorem sparesOperators_resource : SparesOperators resource where
  columns := by decide
  relations := by decide

/-- A product with a key is asked for by a well-formed filter. -/
theorem matchStages_wellFormed_color :
    ∃ query, target.compile hasColor = .ok query ∧
      query.pipeline = pipelineOf (.field "specs.color" .exists_) ∧
      ∀ stages ∈ query.pipelines, ∀ filter, .keep filter ∈ stages →
        isWellFormed filter.toJson = true := by
  have hread : Request.ofParams ⟨[("specs__haskey", "color")]⟩ resource {} = .ok hasColor := rfl
  have hleaf : ∀ f ∈ hasColor.filter, ∀ leaf ∈ f.leaves,
      target.LeafIsWellFormed Joins.defaultStem leaf := by
    intro f hf leaf hleaf
    cases hf
    rw [List.mem_singleton.1 hleaf]
    intro located operand hlocate hoperand
    cases hlocate
    cases hoperand
    exact ⟨by decide, show isNamed "color" = true by decide⟩
  have hnames : ∀ entry ∈ target.registry.entries, SparesOperators entry.resource :=
    List.forall_mem_singleton.2 sparesOperators_resource
  have hfunctions : ∀ f ∈ target.functions, isMarked f.2 = true ∧ f.2 ≠ "$literal" := by decide
  have hvalid : hasColor.validate target.registry resource = .ok () := rfl
  have hcompile : target.compile hasColor = .ok {
      collection := "products"
      pipeline := pipelineOf (.field "specs.color" .exists_)
      countPipeline := none
      totals := none } := rfl
  exact ⟨_, hcompile, rfl, (Target.matchStages_wellFormed_iff hnames sparesOperators_resource
    hfunctions hread hvalid hcompile).2 hleaf⟩

/-- Valid requests are compiled to a conjunction of nothing, to a path with an empty name, and to a
pattern that is taken for one. -/
theorem matchStages_not_wellFormed :
    (Request.ofParams ⟨[("search", "\x7b\"specs__contains\": [\x7b\x7d]\x7d")]⟩ resource {} =
        .ok holdsNothing ∧
      holdsNothing.validate target.registry resource = .ok () ∧
      ∃ query, target.compile holdsNothing = .ok query ∧
        query.pipeline = pipelineOf (.and []) ∧
        (Filter.and []).toJson = .object [("$and", .array [])] ∧
        isWellFormed (Filter.and []).toJson = false) ∧
    (Request.ofParams ⟨[("specs__haskey", "")]⟩ resource {} = .ok hasNoName ∧
      hasNoName.validate target.registry resource = .ok () ∧
      ∃ query, target.compile hasNoName = .ok query ∧
        query.pipeline = pipelineOf (.field "specs." .exists_) ∧
        isWellFormed (Filter.field "specs." .exists_).toJson = false) ∧
    Request.ofParams ⟨[("name__func__lower__endswith", "")]⟩ resource {} = .ok endsWithNothing ∧
      endsWithNothing.validate target.registry resource = .ok () ∧
      ∃ query filter, target.compile endsWithNothing = .ok query ∧
        query.pipeline = pipelineOf filter ∧
        filter = .expr (.regexMatch (.apply "$toLower" [.field "name"]) "$" "") ∧
        isWellFormed filter.toJson = false :=
  ⟨⟨by cbv, rfl, _, rfl, rfl, rfl, by decide⟩, ⟨rfl, rfl, _, rfl, rfl, by decide⟩, rfl, rfl, _, _,
    rfl, rfl, rfl, by decide⟩

end Workshop
end Listing.Document

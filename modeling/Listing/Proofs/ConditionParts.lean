/-
# What conditions are made of

The condition of a filter is put together from columns and from the values of its operands, and the
metrics and ranks of totals from columns alone. A property that passes from the parts of an
expression to the whole, and that the columns and these values have, is one of all of them. So what
conditions have in common (the tables that they name, the range of the integers that they bind, the
holes of their templates) is proved of each way to put expressions together, and the ways in which a
filter uses them are followed once.
-/
import Listing.Proofs.FilterTree
import Listing.Proofs.Semantics.FoundRows
import Listing.Proofs.SqlCondition
import Listing.Proofs.Support.Basic
import Listing.Sql.Totals

namespace Listing

/-- A comparison that searches in a text, with functions in front of the search or without. -/
def Comparison.SearchesText (c : Comparison) : Prop :=
  c.function.bind FunctionChain.predicate? = none ∧ c.valueOperator.positive = .search

theorem Comparison.searchesText_iff_of_none {c : Comparison} (hfunction : c.function = none) :
    c.SearchesText ↔ c.operator.positive = .search := by
  simp [SearchesText, Comparison.valueOperator, Listing.valueOperator, hfunction]

theorem Comparison.searchesText_iff_of_some {c : Comparison} {f : FunctionChain}
    (hfunction : c.function = some f) (hpredicate : f.predicate? = none) :
    c.SearchesText ↔ c.valueOperator.positive = .search := by
  simp [SearchesText, hfunction, hpredicate]

/-- A filter searches in a text, by a comparison or by a full-text match. -/
def Filter.SearchesText (f : Filter) : Prop :=
  ∃ leaf ∈ f.leaves, match leaf with
    | .comparison c => c.SearchesText
    | .fullText _ => True
    | .node .. => False

namespace Sql

/-- What a condition says by other means than an operator that all dialects have; a search only if
there is one. -/
inductive Target.Writes (t : Target) (searching : Prop) : Expr → Prop
  | datePart (op : Operator) (e : Expr) : t.Writes searching (Sql.datePart t.dialect op e)
  | affixTest (op : Operator) (e : Expr) (needle : String) :
      t.Writes searching (Sql.affixTest t.dialect op e needle)
  | postgresTest {op : Operator} {kind : Kind} {e test : Expr} {operand : Operand}
      (dialect : t.dialect = .postgres) (tests : postgresTest? op kind e operand = some test) :
      t.Writes searching test
  | searchTest {param : String} {e test : Expr} {s : Scalar} (searches : searching)
      (tests : t.searchTest param e s = .ok test) : t.Writes searching test
  | fullText (f : FullText) (searches : searching) : t.Writes searching (t.fullText f)

theorem Target.Writes.mono {t : Target} {searching more : Prop} {e : Expr}
    (hwrites : t.Writes searching e) (hmore : searching → more) : t.Writes more e := by
  cases hwrites with
  | datePart op e => exact .datePart op e
  | affixTest op e needle => exact .affixTest op e needle
  | postgresTest dialect tests => exact .postgresTest dialect tests
  | searchTest searches tests => exact .searchTest (hmore searches) tests
  | fullText f searches => exact .fullText f (hmore searches)

/-- A property of expressions that passes from parts to the whole, where `written` says which
templates occur, and `ok` which values may be among the parts: the values of all operands that can
be read, and what is made of them. -/
structure Expr.Hereditary (written : Expr → Prop) (p : Expr → Prop) (ok : Value → Prop) : Prop where
  value : ∀ {v : Value}, ok v → p (.value v)
  call : ∀ {function : String} {arguments : List Expr}, (∀ e ∈ arguments, p e) →
    p (.call function arguments)
  countRows : p .countRows
  countDistinct : ∀ {e : Expr}, p e → p (.countDistinct e)
  compare : ∀ {comparator : Comparator} {e : Expr} {v : Value}, p e → ok v →
    p (.compare comparator e v)
  between : ∀ {e : Expr} {low high : Value}, p e → ok low → ok high → p (.between e low high)
  among : ∀ {e : Expr} {values : List Value}, p e → (∀ v ∈ values, ok v) → p (.among e values)
  like : ∀ {e : Expr} {pattern : String}, p e → p (.like e pattern)
  isNull : ∀ {e : Expr}, p e → p (.isNull e)
  isNotNull : ∀ {e : Expr}, p e → p (.isNotNull e)
  template : ∀ {text : String} {arguments : List Expr}, written (.template text arguments) →
    (∀ e ∈ arguments, p e) → p (.template text arguments)
  and : ∀ {left right : Expr}, p left → p right → p (.and left right)
  or : ∀ {left right : Expr}, p left → p right → p (.or left right)
  not : ∀ {e : Expr}, p e → p (.not e)
  truth : ∀ b : Bool, p (.truth b)
  null : ok (.scalar .null)
  text : ∀ s : String, ok (.scalar (.text s))
  items : ∀ {items : List Scalar}, (∀ s ∈ items, ok (.scalar s)) → ok (.ofItems items)
  operand : ∀ {c : Comparison} {attr : Attribute} {operand : Operand},
    Operand.ofComparison c attr = .ok operand → ∀ s ∈ operand.values, ok (.scalar s)

namespace Expr.Hereditary

variable {written p : Expr → Prop} {ok : Value → Prop} (hp : Hereditary written p ok)

/-- A chain of expressions has a property that its links have. -/
theorem foldl {link : Expr → Expr → Expr} (hlink : ∀ {e e'}, p e → p e' → p (link e e'))
    {e : Expr} {es : List Expr} (he : p e) (hes : ∀ e' ∈ es, p e') : p (es.foldl link e) := by
  induction es generalizing e with
  | nil => exact he
  | cons e' es ih =>
      obtain ⟨he', hrest⟩ := List.forall_mem_cons.1 hes
      rw [List.foldl_cons]
      exact ih (hlink he he') hrest

include hp

theorem all {es : List Expr} (hes : ∀ e ∈ es, p e) : p (.all es) := by
  cases es with
  | nil => exact hp.truth true
  | cons e es =>
      obtain ⟨he, hrest⟩ := List.forall_mem_cons.1 hes
      exact foldl hp.and he hrest

theorem any {es : List Expr} (hes : ∀ e ∈ es, p e) : p (.any es) := by
  cases es with
  | nil => exact hp.truth false
  | cons e es =>
      obtain ⟨he, hrest⟩ := List.forall_mem_cons.1 hes
      exact foldl hp.or he hrest

theorem negateIf (negated : Bool) {e : Expr} (he : p e) : p (.negateIf negated e) := by
  cases negated with
  | false => exact he
  | true => exact hp.not he

/-- A metric of a key and an argument. -/
theorem metricExpr {key : Option Expr} (function : MetricFunction) {argument : Option Expr}
    (hkey : ∀ e ∈ key, p e) (hargument : ∀ e ∈ argument, p e) :
    p (Sql.metricExpr key function argument) := by
  cases argument with
  | none =>
      cases function with
      | count =>
          cases key with
          | none => exact hp.countRows
          | some e => exact hp.countDistinct (hkey e rfl)
      | _ => exact hp.countRows
  | some e =>
      have hcall (name : String) : p (.call name [e]) := hp.call <| by simpa using hargument e rfl
      cases function <;> exact hcall _

/-- The rank of a group is computed of what the columns are. -/
theorem rankExpr {dimensions metrics : List Labelled}
    (hwritten : written (Sql.rankExpr dimensions.dropLast metrics))
    (hcolumns : ∀ column ∈ dimensions ++ metrics, p column.2) :
    p (Sql.rankExpr dimensions.dropLast metrics) := by
  refine hp.template hwritten fun e he => ?_
  rcases List.mem_append.1 he with hparent | hmetric
  · obtain ⟨column, hcolumn, rfl⟩ := List.mem_map.1 hparent
    exact hcolumns column (List.mem_append_left _ (List.dropLast_subset _ hcolumn))
  · obtain ⟨column, hcolumn, rfl⟩ := List.mem_map.1 hmetric
    exact hcolumns column (List.mem_append_right _ hcolumn)

/-- An expression and a value in a template. -/
theorem template_pair {text : String} {e : Expr} {v : Value}
    (hwritten : written (.template text [e, .value v])) (he : p e) (hv : ok v) :
    p (.template text [e, .value v]) :=
  hp.template hwritten <| by simpa using ⟨he, hp.value hv⟩

theorem upperOf {e : Expr} (he : p e) : p (Sql.upperOf e) := hp.call <| by simpa using he

theorem datePart {d : Dialect} {op : Operator} {e : Expr}
    (hwritten : written (Sql.datePart d op e)) (he : p e) : p (Sql.datePart d op e) := by
  cases d with
  | mysql => exact hp.call (by simpa using he)
  | postgres | sqlite => exact hp.template hwritten (by simpa using he)

theorem arrayTest {operator : String} {e : Expr} {items : List Scalar}
    (hwritten : written (Sql.arrayTest operator e items)) (he : p e)
    (hitems : ∀ s ∈ items, ok (.scalar s)) : p (Sql.arrayTest operator e items) :=
  hp.template_pair hwritten he (hp.items hitems)

theorem affixTest {d : Dialect} {op : Operator} {e : Expr} {needle : String}
    (hwritten : written (Sql.affixTest d op e needle)) (he : p e) :
    p (Sql.affixTest d op e needle) := by
  cases d with
  | postgres => exact hp.like he
  | mysql | sqlite => exact hp.template_pair hwritten he (hp.text _)

theorem documentTest {e : Expr} {items : List Scalar}
    (hwritten : written (Sql.documentTest e items)) (he : p e)
    (hitems : ∀ s ∈ items, ok (.scalar s)) : p (Sql.documentTest e items) := by
  refine hp.template hwritten fun argument hargument => ?_
  obtain ⟨item, hitem, hargument⟩ := List.mem_flatMap.1 hargument
  rcases List.mem_cons.1 hargument with rfl | hvalue
  · exact he
  · rw [List.mem_singleton.1 hvalue]
    exact hp.value (hitems item hitem)

section

variable {t : Target} {param : String} {e : Expr} {operand : Operand}

theorem single (hoperand : ∀ s ∈ operand.values, ok (.scalar s)) :
    ok (.scalar operand.single) := by
  unfold Operand.single
  cases hvalues : operand.values with
  | nil => exact hp.null
  | cons s values => exact hoperand s (by simp [hvalues])

theorem postgresTest? {op : Operator} {kind : Kind} {test : Expr} (hwritten : written test)
    (he : p e)
    (hoperand : ∀ s ∈ operand.values, ok (.scalar s))
    (htest : Sql.postgresTest? op kind e operand = some test) : p test := by
  have htexts : ∀ s ∈ operand.values.map fun item => Scalar.text item.asText, ok (.scalar s) := by
    intro s hs
    obtain ⟨item, _, rfl⟩ := List.mem_map.1 hs
    exact hp.text _
  unfold Sql.postgresTest? at htest
  cases op
  case contains =>
    dsimp only at htest
    split at htest
    · cases htest
      exact hp.arrayTest hwritten he hoperand
    · cases htest
      exact hp.documentTest hwritten he hoperand
  case overlap =>
    cases htest
    exact hp.arrayTest hwritten he hoperand
  case hasAll | hasAny =>
    cases htest
    exact hp.arrayTest hwritten he htexts
  case hasKey =>
    cases htest
    exact hp.template_pair hwritten he (hp.single hoperand)
  all_goals cases htest

/-- A test of an expression by an operand. -/
theorem test {op : Operator} {kind : Kind} {test : Expr}
    (hwritten : ∀ e', t.Writes (op = .search) e' → written e') (he : p e)
    (hoperand : ∀ s ∈ operand.values, ok (.scalar s))
    (htest : t.test param op kind e operand = .ok test) : p test := by
  have hsingle := hp.single hoperand
  unfold Target.test at htest
  cases op
  case exact | gt | gte | lt | lte =>
    cases htest
    exact hp.compare he hsingle
  case isNull =>
    cases htest
    exact hp.isNull he
  case isNotNull =>
    cases htest
    exact hp.isNotNull he
  case among =>
    cases htest
    refine hp.among he fun v hv => ?_
    obtain ⟨s, hs, rfl⟩ := List.mem_map.1 hv
    exact hoperand s hs
  case range =>
    cases operand with
    | bounds low high =>
        cases htest
        exact hp.between he (hoperand low (by simp [Operand.values]))
          (hoperand high (by simp [Operand.values]))
    | _ => cases htest
  case iexact =>
    cases htest
    exact hp.compare (hp.upperOf he) (hp.text _)
  case icontains | istartsWith | iendsWith =>
    cases htest
    exact hp.like (hp.upperOf he)
  case startsWith | endsWith =>
    cases htest
    exact hp.affixTest (hwritten _ (.affixTest _ _ _)) he
  case search =>
    have hsearch : written test := hwritten test (.searchTest rfl htest)
    unfold Target.searchTest at htest
    cases hd : t.dialect <;> simp only [hd] at htest <;> cases htest
    · exact hp.template_pair hsearch he hsingle
    · exact hp.template_pair hsearch he hsingle
  case year | month | day =>
    cases htest
    exact hp.compare (hp.datePart (hwritten _ (.datePart _ _)) he) hsingle
  all_goals
    dsimp only at htest
    split at htest
    · rename_i hdialect hpostgres
      cases htest
      exact hp.postgresTest? (hwritten _ (.postgresTest hdialect hpostgres)) he hoperand hpostgres
    · cases htest

/-- A call of a function of the request. -/
theorem target_call {name : String} {arguments : List Expr} {e : Expr}
    (harguments : ∀ argument ∈ arguments, p argument)
    (hcall : t.call param name arguments = .ok e) : p e := by
  unfold Target.call at hcall
  dsimp only at hcall
  split at hcall
  · cases hcall
    exact hp.call harguments
  · cases hcall

/-- The condition of a comparison of a column. -/
theorem conditionOf {c : Comparison} {kind : Kind} {condition : Expr}
    (hwritten : ∀ e', t.Writes c.SearchesText e' → written e') (he : p e)
    (hoperand : ∀ s ∈ operand.values, ok (.scalar s))
    (hcondition : t.conditionOf c kind e operand = .ok condition) : p condition := by
  unfold Target.conditionOf at hcondition
  cases hfunction : c.function with
  | none =>
      rw [hfunction] at hcondition
      obtain ⟨test, htest, hrest⟩ := Result.bind_eq_ok.1 hcondition
      cases hrest
      have htested (e' : Expr) (hwrites : t.Writes (c.operator.positive = .search) e') :
          written e' :=
        hwritten e' (hwrites.mono fun hsearch => (c.searchesText_iff_of_none hfunction).2 hsearch)
      exact hp.negateIf _ (hp.test htested he hoperand htest)
  | some function =>
      rw [hfunction] at hcondition
      obtain ⟨e', htransforms, hrest⟩ := Result.bind_eq_ok.1 hcondition
      have he' : p e' := Result.foldlM_invariant p
        (fun e name e' he hcall => hp.target_call (by simpa using he) hcall) he htransforms
      cases hpredicate : function.predicate? with
      | some name =>
          rw [hpredicate] at hrest
          refine hp.target_call (fun argument hargument => ?_) hrest
          rcases List.mem_cons.1 hargument with rfl | hvalue
          · exact he'
          · obtain ⟨s, hs, rfl⟩ := List.mem_map.1 hvalue
            exact hp.value (hoperand s hs)
      | none =>
          rw [hpredicate] at hrest
          obtain ⟨test, htest, hdone⟩ := Result.bind_eq_ok.1 hrest
          cases hdone
          have htested (e' : Expr) (hwrites : t.Writes (c.valueOperator.positive = .search) e') :
              written e' :=
            hwritten e' (hwrites.mono fun hsearch =>
              (c.searchesText_iff_of_some hfunction hpredicate).2 hsearch)
          exact hp.negateIf _ (hp.test htested he' hoperand htest)

/-- A text search without an index. -/
theorem likeSearch {columns : List Expr} (hcolumns : ∀ column ∈ columns, p column)
    (f : FullText) : p (Sql.likeSearch columns f) := by
  have htests : ∀ test ∈ f.words.map fun word => Expr.any (columns.map fun column =>
      .like (Sql.upperOf column) ("%" ++ Text.upper (Text.escapeLike word) ++ "%")), p test := by
    intro test htest
    obtain ⟨word, _, rfl⟩ := List.mem_map.1 htest
    refine hp.any fun like hlike => ?_
    obtain ⟨column, hcolumn, rfl⟩ := List.mem_map.1 hlike
    exact hp.like (hp.upperOf (hcolumns column hcolumn))
  unfold Sql.likeSearch
  dsimp only
  split
  · exact hp.all htests
  · exact hp.any htests

/-- A full-text search of the listed table. -/
theorem fullText {f : FullText} (hwritten : written (t.fullText f))
    (hroot : ∀ name, p (.column t.resource.storage name)) : p (t.fullText f) := by
  have hcolumns : ∀ column ∈ (f.attributes.filterMap t.resource.attribute?).map fun attr =>
      Expr.column t.resource.storage attr.columnName, p column := by
    intro column hcolumn
    obtain ⟨attr, _, rfl⟩ := List.mem_map.1 hcolumn
    exact hroot _
  unfold Target.fullText at hwritten ⊢
  cases hd : t.dialect with
  | postgres =>
      rw [hd] at hwritten
      refine hp.template hwritten fun argument hargument => ?_
      rcases List.mem_append.1 hargument with hcolumn | hword
      · exact hcolumns argument hcolumn
      · obtain ⟨word, _, rfl⟩ := List.mem_map.1 hword
        exact hp.value (hp.text word)
  | mysql =>
      rw [hd] at hwritten
      dsimp only at hwritten ⊢
      cases hterms : booleanTerms? f with
      | none => exact hp.likeSearch hcolumns f
      | some terms =>
        rw [hterms] at hwritten
        refine hp.template hwritten fun argument hargument => ?_
        rcases List.mem_append.1 hargument with hcolumn | hterms
        · exact hcolumns argument hcolumn
        · rw [List.mem_singleton.1 hterms]
          exact hp.value (hp.text _)
  | sqlite => exact hp.likeSearch hcolumns f

end

end Expr.Hereditary

namespace Target

variable {t : Target}

/-- A column stands for an attribute at the end of a route without embedded relations. -/
theorem columnOf_eq_ok {stem param : String} {located : Located} {column : Expr}
    (hcolumn : t.columnOf stem param located = .ok column) :
    (∀ hop ∈ located.route, hop.relation.embedded = false) ∧
      column = .column (t.tableOf stem located.route) located.attr.columnName := by
  obtain ⟨_, hcheck, hrest⟩ := Result.bind_eq_ok.1 hcolumn
  cases hrest
  refine ⟨?_, rfl⟩
  unfold checkReferences at hcheck
  split at hcheck
  · cases hcheck
  · rename_i hfound
    simpa using hfound

/-- What is known of a comparison that has a condition. -/
theorem comparison_eq_ok {stem : String} {c : Comparison} {condition : Expr}
    (hcondition : t.comparison stem c = .ok condition) :
    ∃ located operand column, t.registry.locate t.resource c.param c.path = .ok located ∧
      Operand.ofComparison c located.attr = .ok operand ∧
      t.columnOf stem c.param located = .ok column ∧
      t.conditionOf c located.attr.kind column operand = .ok condition := by
  obtain ⟨located, hlocate, hrest⟩ := Result.bind_eq_ok.1 hcondition
  obtain ⟨column, hcolumn, hrest⟩ := Result.bind_eq_ok.1 hrest
  obtain ⟨operand, hoperand, _⟩ := Result.bind_eq_ok.1 hrest
  rw [comparison_eq hlocate hoperand, hcolumn] at hcondition
  exact ⟨located, operand, column, hlocate, hoperand, hcolumn, hcondition⟩

end Target

/-- The condition of a filter has a property that passes from parts to the whole, if the columns of
the listed table have it and those of the tables at the ends of its paths. -/
theorem Expr.Hereditary.condition {written p : Expr → Prop} {ok : Value → Prop}
    (hp : Hereditary written p ok) {t : Target} {stem : String} {f : Filter} {condition : Expr}
    (hcondition : t.condition stem f = .ok condition)
    (hwritten : ∀ e, t.Writes f.SearchesText e → written e)
    (hroot : ∀ name, p (.column t.resource.storage name))
    (hpaths : ∀ path ∈ f.paths, ∀ name, p (.column (t.tableOf stem (t.routeOf path)) name)) :
    p condition := by
  induction f generalizing condition with
  | comparison c =>
      rw [Target.condition] at hcondition
      obtain ⟨located, operand, column, hlocate, hoperand, hcolumn, hcondition⟩ :=
        Target.comparison_eq_ok hcondition
      obtain ⟨-, rfl⟩ := Target.columnOf_eq_ok hcolumn
      refine hp.conditionOf (fun e hwrites => hwritten e (hwrites.mono fun hsearch => ?_)) ?_
        (hp.operand hoperand) hcondition
      · exact ⟨.comparison c, by simp [Filter.leaves], hsearch⟩
      have hroute : t.routeOf c.path = located.route := by
        rw [Target.routeOf, Registry.walk_of_locate hlocate]
      rw [← hroute]
      exact hpaths c.path (by simp [Filter.paths, Filter.leaves]) _
  | fullText f =>
      rw [Target.condition] at hcondition
      cases hcondition
      refine hp.fullText (hwritten _ (.fullText f ?_)) hroot
      exact ⟨.fullText f, by simp [Filter.leaves], trivial⟩
  | node connective children ih =>
      rw [Target.condition, Target.conditions_eq_mapM] at hcondition
      obtain ⟨parts, hparts, hrest⟩ := Result.bind_eq_ok.1 hcondition
      rw [Filter.paths_node] at hpaths
      have hchildren : ∀ part ∈ parts, p part := by
        intro part hpart
        obtain ⟨child, hmem, hchild⟩ := Result.mem_of_mapM_eq_ok hparts hpart
        refine ih child hmem hchild (fun e hwrites => hwritten e (hwrites.mono ?_))
          fun path hpath => hpaths path (List.mem_flatMap.2 ⟨child, hmem, hpath⟩)
        rintro ⟨leaf, hleaf, hsearch⟩
        rw [Filter.SearchesText, Filter.leaves_node]
        exact ⟨leaf, List.mem_flatMap.2 ⟨child, hmem, hleaf⟩, hsearch⟩
      cases hrest
      cases connective with
      | and => exact hp.all hchildren
      | or => exact hp.any hchildren
      | not => exact hp.not (hp.all hchildren)

end Sql
end Listing

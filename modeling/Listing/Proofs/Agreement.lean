/-
# All stores agree on basic filters

A filter over texts, numbers and truth values of the listed resource means the same everywhere: as a
condition of each SQL dialect, as a filter on documents, as a clause of a search, and evaluated
directly. On records without nulls the three values of SQL are only two, so that its negations, the
`$nor` of documents and the `must_not` of searches coincide.

Each store has one lemma on tests, one on comparisons and one on trees. The tree lemmas follow the
tree; that a negation has exactly one child matters for documents and searches, where the word that
negates takes a list and denies each of its members.
-/
import Listing.Compiled
import Listing.Proofs.Semantics.Direct
import Listing.Proofs.Semantics.DocumentFilter
import Listing.Proofs.Semantics.SearchClause
import Listing.Proofs.Semantics.SqlExpr
import Listing.Proofs.Support.Document
import Listing.Proofs.Support.SearchIndex
import Listing.Proofs.Support.Sql

namespace Listing

theorem any_congr_mem {α : Type} {p q : α → Bool} {xs : List α} (heq : ∀ x ∈ xs, p x = q x) :
    xs.any p = xs.any q := by
  rw [Bool.eq_iff_iff, List.any_eq_true, List.any_eq_true]
  constructor
  · rintro ⟨x, hx, hp⟩
    exact ⟨x, hx, heq x hx ▸ hp⟩
  · rintro ⟨x, hx, hq⟩
    exact ⟨x, hx, (heq x hx).symm ▸ hq⟩

/-- A negation of one filter denies it, also where the word denies each of several. -/
theorem Connective.decide_not {parts : List Bool} (hsingle : parts.length = 1) :
    Connective.not.decide parts = !parts.any id := by
  obtain ⟨part, rfl⟩ := List.length_eq_one_iff.1 hsingle
  simp [Connective.decide]

namespace Sql.Target

variable {t : Target} {kind : Kind} {operand : Operand} {op : Operator}

/-- The test of a suitable operand has the truth value that the operand gives directly. -/
theorem eval_test (engine : Engine) (rows : List Env) (env : Env) (param : String) {e : Expr}
    (hsuits : operand.Suits kind op) (hholds : kind.Holds (engine.eval rows env e)) :
    ∃ test, t.test param op kind e operand = .ok test ∧
      engine.eval rows env test = .bool (operand.accepts op (engine.eval rows env e)) := by
  cases hsuits with
  | exact s hs | gt s hs | gte s hs | lt s hs | lte s hs =>
      exact ⟨_, rfl, engine.compareWith_of_holds _ hholds hs.holds⟩
  | range low high hlow hhigh =>
      refine ⟨_, rfl, ?_⟩
      rw [Engine.eval, Value.datum, Value.datum, engine.compareWith_of_holds _ hholds hlow.holds,
        engine.compareWith_of_holds _ hholds hhigh.holds, conj_bool]
      rfl
  | among items hitems =>
      refine ⟨_, rfl, ?_⟩
      have hmapped : (items.map Value.scalar).map Value.datum = items.map Scalar.datum := by
        rw [List.map_map]
        rfl
      rw [Operand.values, Engine.eval, hmapped, engine.memberOf_of_holds hholds (by
        intro y hy
        obtain ⟨s, hs, rfl⟩ := List.mem_map.1 hy
        exact (hitems s hs).holds), List.any_map]
      rfl
  | isNull => exact ⟨_, rfl, by rw [Engine.eval]; rfl⟩
  | isNotNull => exact ⟨_, rfl, by rw [Engine.eval]; rfl⟩

/-- The condition of a basic comparison has the truth value of the comparison. -/
theorem eval_comparison (engine : Engine) (stem : String) {c : Comparison} {record : Listing.Record}
    {env : Env} (henv : ∀ column, env.column t.resource.storage column = record column)
    (htyped : record.IsTyped t.resource) (hbasic : c.IsBasic t.resource)
    (hvalid : c.validate t.registry t.resource = .ok ()) :
    ∃ e, t.comparison stem c = .ok e ∧
      engine.eval [env] env e = .bool (c.accepts t.resource record) := by
  obtain ⟨attr, operand, hlocate, hattr, hkind, hoperand, hsuits⟩ := hbasic.exists_operand hvalid
  let column : Expr := .column t.resource.storage attr.columnName
  have hvalue : engine.eval [env] env column = record attr.columnName := by
    rw [Engine.eval, henv]
  have hholds : attr.kind.Holds (engine.eval [env] env column) := by
    rw [hvalue]
    exact htyped attr (List.mem_of_find?_eq_some hattr) hkind
  obtain ⟨test, htest, heval⟩ := eval_test (t := t) engine [env] env c.param hsuits hholds
  refine ⟨.negateIf c.operator.isNegated test, ?_, ?_⟩
  · have hcolumn : t.columnOf stem c.param ⟨attr, t.resource, []⟩ = .ok column := rfl
    simp only [comparison, hlocate, hcolumn, hoperand, hbasic.plain, bind, Except.bind, htest]
    rfl
  · rw [engine.eval_negateIf [env] env _ heval, hvalue]
    simp only [Comparison.accepts, hattr, hoperand]

/-- The condition of a basic filter has the truth value of the filter. -/
theorem eval_condition (engine : Engine) (stem : String) {f : Filter} {record : Listing.Record}
    {env : Env} (henv : ∀ column, env.column t.resource.storage column = record column)
    (htyped : record.IsTyped t.resource)
    (hbuilt : f.Built fun leaf => Filter.IsBasicLeaf t.resource leaf ∧
      leaf.validateLeaf t.registry t.resource = .ok ()) :
    ∃ e, t.condition stem f = .ok e ∧
      engine.eval [env] env e = .bool (f.accepts t.resource record) := by
  induction hbuilt with
  | comparison c holds =>
      rw [condition, Filter.accepts]
      exact eval_comparison engine stem henv htyped holds.1 holds.2
  | fullText f holds => exact holds.1.elim
  | node connective children nonempty single built ih =>
      obtain ⟨parts, hparts, hvalues, _⟩ :=
        Result.exists_mapM_eq_ok (p := fun _ => True) fun child hchild => by
          obtain ⟨e, he, heval⟩ := ih child hchild
          exact ⟨e, he, heval, trivial⟩
      have hbool : parts.map (engine.eval [env] env) =
          (Filter.acceptsEach t.resource record children).map Datum.bool := by
        rw [hvalues, Filter.acceptsEach_eq_map, List.map_map]
        rfl
      rw [condition, conditions_eq_mapM, hparts, Filter.accepts]
      cases connective with
      | and => exact ⟨_, rfl, engine.eval_all [env] env hbool⟩
      | or => exact ⟨_, rfl, engine.eval_any [env] env hbool⟩
      | not =>
          refine ⟨_, rfl, ?_⟩
          rw [Engine.eval, engine.eval_all [env] env hbool, neg_bool]
          rfl

end Sql.Target

namespace Document.Target

variable {t : Target} {kind : Kind} {operand : Operand} {op : Operator}

/-- The test of a suitable operand holds if the operand accepts the value. -/
theorem holds_fieldFilter (engine : Engine) (fields : Fields) (param : String) (attr : Attribute)
    {field : String} (hsuits : operand.Suits kind op) (hholds : kind.Holds (fields field)) :
    ∃ filter, fieldFilter param op attr field operand = .ok filter ∧
      engine.holds fields filter = operand.accepts op (fields field) := by
  have hcompare : ∀ {comparator : Comparator} {s : Scalar}, comparator ≠ .ne → s.IsBasic kind →
      engine.compareWith comparator (fields field) s.toJson.datum =
        (fields field).related comparator.accepts s.datum := by
    intro comparator s hne hs
    rw [hs.datum_toJson]
    exact engine.compareWith_of_holds hne hholds hs.holds
  cases hsuits with
  | exact s hs | gt s hs | gte s hs | lt s hs | lte s hs =>
      refine ⟨_, rfl, ?_⟩
      rw [Engine.holds, Engine.passes]
      exact hcompare (by simp) hs
  | range low high hlow hhigh =>
      refine ⟨_, rfl, ?_⟩
      rw [Engine.holds, Engine.passes, hcompare (by simp) hlow, hcompare (by simp) hhigh]
      rfl
  | among items hitems =>
      refine ⟨_, rfl, ?_⟩
      rw [Engine.holds, Engine.passes, jsonValues, Operand.values, List.any_map]
      have hitem : ∀ s ∈ items, engine.compareWith .eq (fields field) s.toJson.datum =
          (fields field).related Ordering.isEq s.datum :=
        fun s hs => hcompare (by simp) (hitems s hs)
      exact any_congr_mem hitem
  | isNull => exact ⟨_, rfl, rfl⟩
  | isNotNull => exact ⟨_, rfl, rfl⟩

/-- The filter of a basic comparison holds of a document as the comparison does. -/
theorem holds_comparison (engine : Engine) (stem : String) {c : Comparison} {record : Record}
    (htyped : record.IsTyped t.resource) (hbasic : c.IsBasic t.resource)
    (hvalid : c.validate t.registry t.resource = .ok ()) :
    ∃ filter, t.comparison stem c = .ok filter ∧
      engine.holds record filter = c.accepts t.resource record := by
  obtain ⟨attr, operand, hlocate, hattr, hkind, hoperand, hsuits⟩ := hbasic.exists_operand hvalid
  have hholds := htyped attr (List.mem_of_find?_eq_some hattr) hkind
  obtain ⟨filter, hfilter, hmeaning⟩ :=
    holds_fieldFilter engine record c.param attr hsuits hholds
  refine ⟨.negateIf c.operator.isNegated filter, ?_, ?_⟩
  · have hfield : fieldOf stem ⟨attr, t.resource, []⟩ = attr.columnName := rfl
    simp only [comparison, hlocate, hfield, hoperand, hbasic.plain, bind, Except.bind, hfilter]
    rfl
  · rw [engine.holds_negateIf, hmeaning]
    simp only [Comparison.accepts, hattr, hoperand]

/-- The filter of a basic filter holds of a document as the filter does. -/
theorem holds_condition (engine : Engine) (stem : String) {f : Listing.Filter} {record : Record}
    (htyped : record.IsTyped t.resource)
    (hbuilt : f.Built fun leaf => Filter.IsBasicLeaf t.resource leaf ∧
      leaf.validateLeaf t.registry t.resource = .ok ()) :
    ∃ filter, t.condition stem f = .ok filter ∧
      engine.holds record filter = f.accepts t.resource record := by
  induction hbuilt with
  | comparison c holds =>
      rw [condition, Filter.accepts]
      exact holds_comparison engine stem htyped holds.1 holds.2
  | fullText f holds => exact holds.1.elim
  | node connective children nonempty single built ih =>
      obtain ⟨parts, hparts, hvalues, _⟩ :=
        Result.exists_mapM_eq_ok (p := fun _ => True) fun child hchild => by
          obtain ⟨filter, hfilter, hmeaning⟩ := ih child hchild
          exact ⟨filter, hfilter, hmeaning, trivial⟩
      rw [condition, conditions_eq_mapM, hparts, Filter.accepts, Filter.acceptsEach_eq_map]
      refine ⟨_, rfl, ?_⟩
      cases connective with
      | and | or =>
          rw [Engine.holds, engine.holdsEach_eq_map, hvalues]
          rfl
      | not =>
          rw [Engine.holds, engine.holdsEach_eq_map, hvalues,
            Connective.decide_not (by rw [List.length_map]; exact single rfl)]

end Document.Target

namespace SearchIndex

/-- The path of the value of an attribute in one piece. -/
def termPath (attr : Attribute) : String :=
  match attr.keywordField with
  | some keyword => attr.columnName ++ "." ++ keyword
  | none => attr.columnName

/-- An indexed document stores a record: every attribute has its value in one piece, and is there
if it has one. -/
def Stores (fields : Fields) (resource : Resource) (record : Record) : Prop :=
  ∀ attr ∈ resource.attributes, fields (termPath attr) = record attr.columnName ∧
    (fields attr.columnName = .null ↔ record attr.columnName = .null)

namespace Target

variable {t : Target} {kind : Kind} {operand : Operand} {op : Operator}

/-- The clause of a suitable operand holds if the operand accepts the value in one piece. -/
theorem holds_fieldClause (engine : Engine) (fields : Fields) (param : String) (field : Field)
    (hsuits : operand.Suits kind op) (hholds : kind.Holds (fields field.term))
    (hpresent : fields field.path ≠ .null) :
    ∃ clause, fieldClause param op field operand = .ok clause ∧
      engine.holds fields clause = operand.accepts op (fields field.term) := by
  have hterm : (fields field.term != .null) = true := by simpa using hholds.ne_null
  have hpath : (fields field.path != .null) = true := by simpa using hpresent
  have hequal : ∀ {s : Scalar}, s.IsBasic kind →
      (fields field.term == s.toJson.datum) =
        (fields field.term).related Ordering.isEq s.datum := by
    intro s hs
    rw [hs.datum_toJson, hholds.related_isEq hs.holds]
    rfl
  have hbound : ∀ {bound : Bound} {s : Scalar}, s.IsBasic kind →
      engine.bounded (fields field.term) (bound, s.toJson) =
        (fields field.term).related bound.accepts s.datum := by
    intro bound s hs
    rw [engine.bounded_of_holds hholds (hs.datum_toJson ▸ hs.holds), hs.datum_toJson]
  cases hsuits with
  | exact s hs =>
      refine ⟨_, rfl, ?_⟩
      rw [Engine.holds, hterm, Bool.true_and]
      exact hequal hs
  | gt s hs | gte s hs | lt s hs | lte s hs =>
      refine ⟨_, rfl, ?_⟩
      rw [Engine.holds, hterm, Bool.true_and, List.all_cons, List.all_nil, Bool.and_true]
      exact hbound hs
  | range low high hlow hhigh =>
      refine ⟨_, rfl, ?_⟩
      rw [Engine.holds, hterm, Bool.true_and, List.all_cons, List.all_cons, List.all_nil,
        Bool.and_true, hbound hlow, hbound hhigh]
      rfl
  | among items hitems =>
      refine ⟨_, rfl, ?_⟩
      rw [Engine.holds, hterm, Bool.true_and, Operand.values, List.any_map]
      exact any_congr_mem fun s hs => hequal (hitems s hs)
  | isNull =>
      refine ⟨_, rfl, ?_⟩
      have hnull : (fields field.term == .null) = false := by simpa using hholds.ne_null
      simp only [Engine.holds, Engine.holdsEach, Operand.accepts, hpath, hnull]
      rfl
  | isNotNull =>
      refine ⟨_, rfl, ?_⟩
      simp only [Engine.holds, Operand.accepts, hpath, hterm]

/-- The clause of a basic comparison holds of a document as the comparison does of its record. -/
theorem holds_comparison (engine : Engine) {c : Comparison} {record : Record} {fields : Fields}
    (hstores : Stores fields t.resource record) (htyped : record.IsTyped t.resource)
    (hbasic : c.IsBasic t.resource) (hvalid : c.validate t.registry t.resource = .ok ()) :
    ∃ s, t.comparison c = .ok s ∧ engine.holds fields s.clause = c.accepts t.resource record ∧
      s.lists = [] := by
  obtain ⟨attr, operand, hlocate, hattr, hkind, hoperand, hsuits⟩ := hbasic.exists_operand hvalid
  have hmem := List.mem_of_find?_eq_some hattr
  obtain ⟨hterm, hnull⟩ := hstores attr hmem
  have hholds := htyped attr hmem hkind
  let field : Field := { path := attr.columnName, term := termPath attr, lists := [], attr }
  have hfield : t.field c.param c.path = .ok field := by
    simp only [Target.field, hlocate, bind, Except.bind]
    rfl
  have hpresent : fields field.path ≠ .null := fun h => hholds.ne_null (hnull.1 h)
  obtain ⟨clause, hclause, hmeaning⟩ := holds_fieldClause engine fields c.param field hsuits
    (hterm.symm ▸ hholds) hpresent
  refine ⟨{ clause := .negateIf c.operator.isNegated clause }, ?_, ?_, rfl⟩
  · simp only [comparison, hbasic.plain, hfield, bind, Except.bind]
    rw [show field.attr = attr from rfl, hoperand]
    simp only [hclause]
    rfl
  · rw [engine.holds_negateIf, hmeaning, show field.term = termPath attr from rfl, hterm]
    simp only [Comparison.accepts, hattr, hoperand]

/-- Clauses that lie in no list are combined as they are. -/
theorem connect_of_plain (connective : Connective) {parts : List Scoped}
    (hplain : ∀ s ∈ parts, s.lists = []) :
    connect connective parts = match connective with
      | .and => .allOf (parts.map (·.clause))
      | .or => .anyOf (parts.map (·.clause))
      | .not => .none (parts.map (·.clause)) := by
  have hlisted : parts.filter (! ·.lists.isEmpty) = [] := by
    rw [List.filter_eq_nil_iff]
    intro s hs
    simp [hplain s hs]
  have hall : parts.filter (·.lists.isEmpty) = parts := by
    rw [List.filter_eq_self]
    intro s hs
    simp [hplain s hs]
  unfold connect groupsOf plainOf
  rw [hlisted, hall]
  cases connective <;> rfl

/-- The clause of a basic filter holds of a document as the filter does of its record. -/
theorem holds_condition (engine : Engine) {f : Filter} {record : Record} {fields : Fields}
    (hstores : Stores fields t.resource record) (htyped : record.IsTyped t.resource)
    (hbuilt : f.Built fun leaf => Filter.IsBasicLeaf t.resource leaf ∧
      leaf.validateLeaf t.registry t.resource = .ok ()) :
    ∃ s, t.condition f = .ok s ∧ engine.holds fields s.clause = f.accepts t.resource record ∧
      s.lists = [] := by
  induction hbuilt with
  | comparison c holds =>
      rw [condition, Filter.accepts]
      exact holds_comparison engine hstores htyped holds.1 holds.2
  | fullText f holds => exact holds.1.elim
  | node connective children nonempty single built ih =>
      obtain ⟨parts, hparts, hvalues, hplain⟩ := Result.exists_mapM_eq_ok ih
      have hclauses : (parts.map (·.clause)).map (engine.holds fields) =
          children.map (Filter.accepts t.resource record) := by
        rw [← hvalues, List.map_map]
        rfl
      rw [condition, conditions_eq_mapM, hparts, Filter.accepts, Filter.acceptsEach_eq_map]
      refine ⟨{ clause := connect connective parts }, rfl, ?_, rfl⟩
      rw [connect_of_plain connective hplain, ← hclauses]
      cases connective with
      | and => exact engine.holds_allOf fields _
      | or => exact engine.holds_anyOf fields _
      | not =>
          have hlength : (parts.map (·.clause)).length = 1 := by
            have hcount := congrArg List.length hclauses
            simpa only [List.length_map, single rfl] using hcount
          rw [Connective.decide_not (by rw [List.length_map]; exact hlength)]
          simp only [Engine.holds, engine.holdsEach_eq_map]

end Target
end SearchIndex

/-- A basic filter means the same to every store: the condition of each SQL dialect, the filter on
documents and the clause of a search accept a record exactly if the filter does. -/
theorem Filter.stores_agree {registry : Registry} {resource : Resource} {f : Filter}
    (hbasic : f.Built (Filter.IsBasicLeaf resource))
    (hvalid : ∀ leaf ∈ f.leaves, leaf.validateLeaf registry resource = .ok ())
    {record : Record} (htyped : record.IsTyped resource) :
    (∀ dialect functions (engine : Sql.Engine) (env : Sql.Env),
      (∀ column, env.column resource.storage column = record column) →
      ∃ condition, Sql.Target.condition { dialect, functions, registry, resource }
          Joins.defaultStem f = .ok condition ∧
        engine.keeps env condition = f.accepts resource record) ∧
    (∀ functions (engine : Document.Engine),
      ∃ filter, Document.Target.condition { functions, registry, resource }
          Joins.defaultStem f = .ok filter ∧
        engine.holds record filter = f.accepts resource record) ∧
    (∀ (engine : SearchIndex.Engine) (fields : SearchIndex.Fields),
      SearchIndex.Stores fields resource record →
      ∃ found, SearchIndex.Target.condition { registry, resource } f = .ok found ∧
        engine.holds fields found.close = f.accepts resource record) := by
  have hbuilt := hbasic.and_leaves hvalid
  refine ⟨fun dialect functions engine env henv => ?_, fun functions engine => ?_,
    fun engine fields hstores => ?_⟩
  · let t : Sql.Target := { dialect, functions, registry, resource }
    obtain ⟨condition, hcondition, heval⟩ :=
      t.eval_condition engine Joins.defaultStem henv htyped hbuilt
    refine ⟨condition, hcondition, ?_⟩
    rw [Sql.Engine.keeps, heval]
    cases f.accepts resource record <;> rfl
  · let t : Document.Target := { functions, registry, resource }
    exact t.holds_condition engine Joins.defaultStem htyped hbuilt
  · let t : SearchIndex.Target := { registry, resource }
    obtain ⟨found, hfound, hmeaning, hlists⟩ := t.holds_condition engine hstores htyped hbuilt
    refine ⟨found, hfound, ?_⟩
    rw [SearchIndex.Scoped.close, hlists]
    exact hmeaning

namespace Film

/-- Films with a title, which searches cut into words, a year, and whether they were seen. -/
def resource : Resource where
  name := "film"
  storage := "films"
  attributes := [
    { name := "title", kind := .string, keywordField := some "raw" },
    { name := "year", kind := .numeric },
    { name := "seen", kind := .boolean }]

def registry : Registry where
  entries := [⟨resource, .searchIndex⟩]

/-- A comparison of an attribute of films. -/
def compare (attr : String) (operator : Operator) (value : Json) : Filter :=
  .comparison { param := attr, path := ⟨[], attr⟩, operator, function := none, value }

/-- Films of 1999 or 2001 that come after M by title or were seen. -/
def filter : Filter :=
  .node .and [
    .node .not [compare "year" .notAmong (.array [.int 1999, .int 2001])],
    .node .or [compare "title" .gte (.string "M"), compare "seen" .exact (.bool true)]]

def record : Record := fun column =>
  if column = "title" then .text "Magnolia"
  else if column = "year" then .number 1999
  else .bool false

/-- The indexed document of a record. -/
def document : SearchIndex.Fields := fun path =>
  if path = "title.raw" then record "title" else record path

theorem isBasic_filter : filter.Built (Filter.IsBasicLeaf resource) := by
  have hyear : (compare "year" .notAmong (.array [.int 1999, .int 2001])).Built
      (Filter.IsBasicLeaf resource) :=
    .comparison _ (Comparison.isBasic_of_operand { name := "year", kind := .numeric }
      (.many [.int 1999, .int 2001]) rfl rfl rfl rfl rfl rfl (by simp [Operand.values]))
  have htitle : (compare "title" .gte (.string "M")).Built (Filter.IsBasicLeaf resource) :=
    .comparison _ (Comparison.isBasic_of_operand
      { name := "title", kind := .string, keywordField := some "raw" } (.one (.text "M"))
      rfl rfl rfl rfl rfl rfl (by simp))
  have hseen : (compare "seen" .exact (.bool true)).Built (Filter.IsBasicLeaf resource) :=
    .comparison _ (Comparison.isBasic_of_operand { name := "seen", kind := .boolean }
      (.one (.bool true)) rfl rfl rfl rfl rfl rfl (by simp))
  have hnot : (Filter.node .not [compare "year" .notAmong (.array [.int 1999, .int 2001])]).Built
      (Filter.IsBasicLeaf resource) :=
    .node .not _ (by simp) (fun _ => rfl) (by simpa using hyear)
  have hor : (Filter.node .or [compare "title" .gte (.string "M"),
      compare "seen" .exact (.bool true)]).Built (Filter.IsBasicLeaf resource) :=
    .node .or _ (by simp) (by simp) (Filter.Built.pair htitle hseen)
  exact .node .and _ (by simp) (by simp) (Filter.Built.pair hnot hor)

theorem isTyped_record : record.IsTyped resource := by
  intro attr hattr _
  simp only [resource, List.mem_cons, List.not_mem_nil, or_false] at hattr
  rcases hattr with rfl | rfl | rfl
  · exact .text "Magnolia"
  · exact .number 1999
  · exact .bool false

theorem stores_document : SearchIndex.Stores document resource record := by
  intro attr hattr
  simp only [resource, List.mem_cons, List.not_mem_nil, or_false] at hattr
  rcases hattr with rfl | rfl | rfl
  · exact ⟨rfl, Iff.rfl⟩
  · exact ⟨rfl, Iff.rfl⟩
  · exact ⟨rfl, Iff.rfl⟩

/-- All stores find the film of 1999. -/
theorem stores_agree_record :
    (∃ condition, Sql.Target.condition { dialect := .mysql, functions := [], registry, resource }
        Joins.defaultStem filter = .ok condition ∧
      Sql.Engine.keeps ⟨fun _ _ => .null, fun _ _ => .null, fun _ _ => .null, fun _ _ => .null,
        fun _ _ _ => .null⟩ ⟨fun _ => record, record⟩ condition = true) ∧
    (∃ found, Document.Target.condition { functions := [], registry, resource }
        Joins.defaultStem filter = .ok found ∧
      Document.Engine.holds ⟨fun _ _ _ => false, fun _ _ => false, fun _ _ _ => false,
        fun _ _ => false⟩ record found = true) ∧
    ∃ found, SearchIndex.Target.condition { registry, resource } filter = .ok found ∧
      SearchIndex.Engine.holds ⟨fun _ _ _ => false, fun _ _ => false, fun _ _ _ => false⟩ document
        found.close = true := by
  have hvalid : ∀ leaf ∈ filter.leaves, leaf.validateLeaf registry resource = .ok () := by
    intro leaf hleaf
    simp only [filter, compare, Filter.leaves, Filter.leavesOf, List.append_nil, List.cons_append,
      List.nil_append, List.mem_cons, List.not_mem_nil, or_false] at hleaf
    rcases hleaf with rfl | rfl | rfl
    · rfl
    · rfl
    · rfl
  have haccepts : filter.accepts resource record = true := by decide +kernel
  obtain ⟨hsql, hdocument, hsearch⟩ :=
    Filter.stores_agree isBasic_filter hvalid isTyped_record
  rw [haccepts] at hsql hdocument hsearch
  exact ⟨hsql .mysql [] _ _ fun _ => rfl, hdocument [] _, hsearch _ document stores_document⟩

end Film
end Listing

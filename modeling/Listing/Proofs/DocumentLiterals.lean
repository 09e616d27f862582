/-
# Operands in document filters

A comparison compiles to a filter whose fields are that of the attribute and fields below it. The
filter is sent as JSON, and is what the store takes the JSON for if the operand is literal where it
stands: as an item of a list or under a field it is not read as operators, and in an expression no
text and no key of it begins with a dollar sign. Two documents that agree on the field of the
attribute are then told apart by no comparison of it.

Nothing quotes an operand where that is not so. A text after a function may name a field of the
document, and an object that should be contained may bring operators of its own.
-/
import Listing.Document.Condition
import Listing.Proofs.Refusal
import Listing.Proofs.Semantics.DocumentPaths
import Listing.Proofs.Semantics.DocumentReading
import Listing.Proofs.Validity
import Mathlib

namespace Listing.Document

/-- An expression that the store takes for itself, and that is computed from one field. -/
structure Expr.ComputedFrom (field : String) (e : Expr) : Prop where
  spelled : e.Spelled
  computed : e.isValue = false
  paths : ∀ path ∈ e.paths, path = field

namespace Expr.ComputedFrom

variable {field : String} {e e' : Expr}

theorem ofField : (Expr.field field).ComputedFrom field :=
  ⟨.field field, rfl, fun path hpath => by simpa [Expr.paths] using hpath⟩

theorem pathsOfAll_values (vs : List Json) : pathsOfAll (vs.map .value) = [] := by
  induction vs with
  | nil => rfl
  | cons v vs ih => rw [List.map_cons, pathsOfAll, ih, Expr.paths, List.append_nil]

/-- What is computed stays so under an operator, together with literal values. -/
theorem apply (he : e.ComputedFrom field) {operator : String} (hlists : operator ∉ takesNoList)
    (vs : List Json) (hvs : ∀ v ∈ vs, isLiteral v = true) :
    (Expr.apply operator (e :: vs.map .value)).ComputedFrom field := by
  refine ⟨.apply _ _ hlists ⟨e, List.mem_cons_self, he.computed⟩ fun argument hargument => ?_, rfl,
    fun path hpath => ?_⟩
  · rcases List.mem_cons.1 hargument with rfl | hvalue
    · exact he.spelled
    · obtain ⟨v, hv, rfl⟩ := List.mem_map.1 hvalue
      exact .value v (hvs v hv)
  · rw [Expr.paths, Expr.pathsOfAll, pathsOfAll_values, List.append_nil] at hpath
    exact he.paths path hpath

/-- Both of two computed truth values. -/
theorem both (he : e.ComputedFrom field) (he' : e'.ComputedFrom field) :
    (Expr.apply "$and" [e, e']).ComputedFrom field := by
  refine ⟨.apply _ _ (by decide) ⟨e, List.mem_cons_self, he.computed⟩ fun argument hargument => ?_,
    rfl, fun path hpath => ?_⟩
  · rcases List.mem_cons.1 hargument with rfl | hlast
    · exact he.spelled
    · rw [List.mem_singleton.1 hlast]
      exact he'.spelled
  · simp only [Expr.paths, Expr.pathsOfAll, List.append_nil, List.mem_append] at hpath
    exact hpath.elim (he.paths path) (he'.paths path)

theorem regexMatch (he : e.ComputedFrom field) {pattern options : String}
    (hpattern : isMarked pattern = false) (hoptions : isMarked options = false) :
    (Expr.regexMatch e pattern options).ComputedFrom field :=
  ⟨.regexMatch e pattern options hpattern hoptions he.spelled, rfl, he.paths⟩

theorem compareExpr (he : e.ComputedFrom field) (comparator : Comparator) {v : Json}
    (hv : isLiteral v = true) : (compareExpr comparator e v).ComputedFrom field := by
  have hlists : comparator.name ∉ takesNoList := by cases comparator <;> decide
  exact he.apply hlists [v] (by simpa using hv)

/-- The part of a date that is compared is computed from the date. -/
theorem datePart (he : e.ComputedFrom field) (op : Operator) {v : Json}
    (hv : isLiteral v = true) :
    (Expr.apply "$eq" [.apply (datePart op) [e], .value v]).ComputedFrom field := by
  have hpart : Document.datePart op ∉ takesNoList := by
    unfold Document.datePart
    split <;> decide
  have hdate := he.apply hpart [] (by simp)
  exact hdate.apply (by decide) [v] (by simpa using hv)

end Expr.ComputedFrom

/-- A field is the given one or lies below it. -/
def Within (field path : String) : Prop := path = field ∨ ∃ name, path = field ++ "." ++ name

/-- All fields of a filter are the given one or lie below it. -/
def Filter.IsWithin (field : String) (f : Filter) : Prop := ∀ path ∈ f.paths, Within field path

/-- All values of an operand stand for themselves in an expression. -/
def AreLiteral (operand : Operand) : Prop := ∀ s ∈ operand.values, isLiteral s.toJson = true

/-- The values of an operand stand for themselves where an operator of the query language puts them:
no item of a list is read as operators, and no part of an object that should be contained. -/
def IsLiteralFor (op : Operator) (kind : Kind) (operand : Operand) : Prop :=
  match op with
  | .among | .overlap => ∀ s ∈ operand.values, opensOperator s.toJson = false
  | .contains =>
    if kind = .collection then ∀ s ∈ operand.values, opensOperator s.toJson = false
    else ∀ s ∈ operand.values, ∀ entries, s.toJson = .object entries →
      ∀ entry ∈ entries, opensOperator entry.2 = false
  | .year | .month | .day => AreLiteral operand
  | _ => True

/-- The values of an operand stand for themselves where an operator after a chain puts them; a
pattern is not one that begins with a dollar sign. -/
def IsLiteralAfter (op : Operator) (operand : Operand) : Prop :=
  match op with
  | .iexact | .icontains | .startsWith | .istartsWith | .endsWith | .iendsWith =>
    isMarked (regexOf op operand.single.toJson.text).1 = false
  | _ => AreLiteral operand

/-- No field below one that is no operator is an operator. -/
theorem isMarked_below {field : String} (hfield : isMarked field = false) (name : String) :
    isMarked (field ++ "." ++ name) = false := by
  unfold isMarked at hfield ⊢
  rw [String.toList_append, String.toList_append]
  cases hlist : field.toList with
  | nil => rfl
  | cons c cs =>
      rw [hlist] at hfield
      simpa using hfield

namespace Filter

variable {field : String}

theorem IsWithin.of_mem {fs : List Filter} (hwithin : ∀ f ∈ fs, f.IsWithin field) :
    ∀ path ∈ pathsOfAll fs, Within field path := by
  intro path hpath
  rw [pathsOfAll_eq_flatMap, List.mem_flatMap] at hpath
  obtain ⟨f, hf, hpath⟩ := hpath
  exact hwithin f hf path hpath

theorem IsWithin.all {fs : List Filter} (hwithin : ∀ f ∈ fs, f.IsWithin field) :
    (Filter.all fs).IsWithin field := by
  unfold Filter.all
  split
  · exact hwithin _ List.mem_cons_self
  · exact IsWithin.of_mem hwithin

theorem IsWithin.negateIf {f : Filter} (hwithin : f.IsWithin field) (negated : Bool) :
    (Filter.negateIf negated f).IsWithin field := by
  cases negated with
  | false => exact hwithin
  | true => exact IsWithin.of_mem (by simpa using hwithin)

theorem isWithin_field (test : FieldTest) : (Filter.field field test).IsWithin field := by
  intro path hpath
  exact Or.inl (List.mem_singleton.1 hpath)

theorem isWithin_below (name : String) (test : FieldTest) :
    (Filter.field (field ++ "." ++ name) test).IsWithin field := by
  intro path hpath
  exact Or.inr ⟨name, List.mem_singleton.1 hpath⟩

/-- A document holds an item in a field, and below it what the entries of an object name. -/
theorem isWithin_containment (item : Json) : ∀ f ∈ containment field item, f.IsWithin field := by
  intro f hf
  cases item with
  | object entries =>
      obtain ⟨entry, _, rfl⟩ := List.mem_map.1 hf
      exact isWithin_below _ _
  | _ =>
      rw [List.mem_singleton.1 hf]
      exact isWithin_field _

/-- The filter for an item is spelled if the entries of the item are not read as operators. -/
theorem spelled_containment (hfield : isMarked field = false) {item : Json}
    (hitem : ∀ entries, item = .object entries → ∀ entry ∈ entries, opensOperator entry.2 = false) :
    ∀ f ∈ containment field item, f.Spelled := by
  intro f hf
  cases item with
  | object entries =>
      obtain ⟨entry, hentry, rfl⟩ := List.mem_map.1 hf
      exact .field _ _ (isMarked_below hfield _) (hitem entries rfl entry hentry)
  | _ =>
      rw [List.mem_singleton.1 hf]
      exact .field _ _ hfield trivial

end Filter

section FieldFilter

variable {param : String} {op : Operator} {attr : Attribute} {field : String} {operand : Operand}
  {filter : Filter}

/-- The filter of a comparison without functions tests the field of the attribute, or fields below
it. -/
theorem isWithin_fieldFilter (hfilter : fieldFilter param op attr field operand = .ok filter) :
    filter.IsWithin field := by
  unfold fieldFilter at hfilter
  cases op
  case range =>
    cases operand <;> cases hfilter
    exact Filter.isWithin_field _
  case contains =>
    dsimp only at hfilter
    split at hfilter
    · cases hfilter
      exact Filter.isWithin_field _
    · cases hfilter
      refine Filter.IsWithin.all fun f hf => ?_
      obtain ⟨item, _, hf⟩ := List.mem_flatMap.1 hf
      exact Filter.isWithin_containment item f hf
  case hasKey =>
    cases hfilter
    exact Filter.isWithin_below _ _
  case hasAll | hasAny =>
    cases hfilter
    first
      | refine Filter.IsWithin.all fun f hf => ?_
      | refine Filter.IsWithin.of_mem fun f hf => ?_
    obtain ⟨key, _, rfl⟩ := List.mem_map.1 hf
    exact Filter.isWithin_below _ _
  case year | month | day =>
    cases hfilter
    intro path hpath
    exact Or.inl (by simpa [Filter.paths, Expr.paths, Expr.pathsOfAll] using hpath)
  all_goals first
    | (cases hfilter; exact Filter.isWithin_field _)
    | cases hfilter

theorem opensOperator_of_mem_jsonValues
    (hvalues : ∀ s ∈ operand.values, opensOperator s.toJson = false) :
    ∀ v ∈ jsonValues operand, opensOperator v = false := by
  intro v hv
  obtain ⟨s, hs, rfl⟩ := List.mem_map.1 hv
  exact hvalues s hs

theorem isLiteral_single (hliteral : AreLiteral operand) :
    isLiteral operand.single.toJson = true := by
  rw [Operand.single]
  cases hvalues : operand.values with
  | nil => rfl
  | cons s rest => exact hliteral s (by rw [hvalues]; exact List.mem_cons_self)

/-- The filter is taken for itself if the operand is literal where it stands. -/
theorem spelled_fieldFilter (hfilter : fieldFilter param op attr field operand = .ok filter)
    (hfield : isMarked field = false) (hliteral : IsLiteralFor op attr.kind operand) :
    filter.Spelled := by
  unfold fieldFilter at hfilter
  cases op
  case range =>
    cases operand <;> cases hfilter
    exact .field _ _ hfield trivial
  case among | overlap =>
    cases hfilter
    exact .field _ _ hfield (opensOperator_of_mem_jsonValues hliteral)
  case contains =>
    dsimp only at hfilter
    unfold IsLiteralFor at hliteral
    split at hfilter
    · rename_i hkind
      cases hfilter
      rw [if_pos hkind] at hliteral
      exact .field _ _ hfield (opensOperator_of_mem_jsonValues hliteral)
    · rename_i hkind
      cases hfilter
      rw [if_neg hkind] at hliteral
      refine Filter.Spelled.all fun f hf => ?_
      obtain ⟨item, hitem, hf⟩ := List.mem_flatMap.1 hf
      obtain ⟨s, hs, rfl⟩ := List.mem_map.1 hitem
      exact Filter.spelled_containment hfield (hliteral s hs) f hf
  case hasKey =>
    cases hfilter
    exact .field _ _ (isMarked_below hfield _) trivial
  case hasAll | hasAny =>
    cases hfilter
    first
      | refine Filter.Spelled.all fun f hf => ?_
      | refine Filter.Spelled.or _ fun f hf => ?_
    obtain ⟨key, _, rfl⟩ := List.mem_map.1 hf
    exact .field _ _ (isMarked_below hfield _) trivial
  case year | month | day =>
    cases hfilter
    exact .expr _ (Expr.ComputedFrom.ofField.datePart _ (isLiteral_single hliteral)).spelled
  all_goals first
    | (cases hfilter; exact .field _ _ hfield trivial)
    | cases hfilter

/-- The needle of a pattern after a chain is not empty where the pattern would be a lone sign. -/
theorem computedFrom_exprTest {e test : Expr} (he : e.ComputedFrom field)
    (htest : exprTest param op e operand = .ok test) (hliteral : IsLiteralAfter op operand) :
    test.ComputedFrom field := by
  unfold exprTest at htest
  cases op
  case range =>
    cases operand <;> cases htest
    rename_i low high
    exact (he.compareExpr .gte (hliteral low (by simp [Operand.values]))).both
      (he.compareExpr .lte (hliteral high (by simp [Operand.values])))
  case among =>
    cases htest
    have hitems : isLiteral (.array (jsonValues operand)) = true := by
      rw [isLiteral, Expr.areLiteral_eq_all, List.all_eq_true]
      intro v hv
      obtain ⟨s, hs, rfl⟩ := List.mem_map.1 hv
      exact hliteral s hs
    exact he.apply (by decide) [.array (jsonValues operand)] (by simpa using hitems)
  case iexact | icontains | startsWith | istartsWith | endsWith | iendsWith =>
    cases htest
    exact he.regexMatch hliteral rfl
  case year | month | day =>
    cases htest
    exact he.datePart _ (isLiteral_single hliteral)
  case isNull | isNotNull =>
    cases htest
    exact he.compareExpr _ rfl
  all_goals first
    | (cases htest; exact he.compareExpr _ (isLiteral_single hliteral))
    | cases htest

end FieldFilter

/-- The operand of a comparison stands for itself wherever the comparison puts it. -/
def OperandIsLiteral (c : Comparison) (attr : Attribute) (operand : Operand) : Prop :=
  match c.function with
  | none => IsLiteralFor c.operator.positive attr.kind operand
  | some function => match function.predicate? with
    | some _ => AreLiteral operand
    | none => IsLiteralAfter c.valueOperator.positive operand

namespace Target

variable {t : Target} {stem param : String} {field : String}

/-- A call applies an operator that is registered. -/
theorem call_eq_ok {name : String} {arguments : List Expr} {e : Expr}
    (hcall : t.call param name arguments = .ok e) :
    ∃ f ∈ t.functions, e = .apply f.2 arguments := by
  unfold call at hcall
  split at hcall
  · rename_i operator hlookup
    cases hcall
    obtain ⟨before, after, hfunctions, _⟩ := List.lookup_eq_some_iff.1 hlookup
    exact ⟨(Text.lowerAscii name, operator), by simp [hfunctions], rfl⟩
  · cases hcall

/-- What a chain computes is computed from the field of the attribute. -/
theorem computedFrom_transforms (hfunctions : ∀ f ∈ t.functions, f.2 ∉ takesNoList)
    {names : List String} {e : Expr}
    (htransforms : names.foldlM (fun e name => t.call param name [e]) (.field field) = .ok e) :
    e.ComputedFrom field := by
  refine Result.foldlM_invariant (Expr.ComputedFrom field) (fun e name e' he hcall => ?_)
    Expr.ComputedFrom.ofField htransforms
  obtain ⟨f, hf, rfl⟩ := call_eq_ok hcall
  exact he.apply (hfunctions f hf) [] (by simp)

/-- The filter of a comparison whose operand is literal is taken for itself, and its fields are that
of the attribute or lie below it. -/
theorem spelled_comparison {c : Comparison} {located : Located} {operand : Operand}
    {filter : Filter} (hlocate : t.registry.locate t.resource c.param c.path = .ok located)
    (hoperand : Operand.ofComparison c located.attr = .ok operand)
    (hcompile : t.comparison stem c = .ok filter)
    (hfield : isMarked (fieldOf stem located) = false)
    (hfunctions : ∀ f ∈ t.functions, f.2 ∉ takesNoList)
    (hliteral : OperandIsLiteral c located.attr operand) :
    filter.Spelled ∧ filter.IsWithin (fieldOf stem located) := by
  have hexpr : ∀ {e : Expr}, e.ComputedFrom (fieldOf stem located) →
      (Filter.expr e).Spelled ∧ (Filter.expr e).IsWithin (fieldOf stem located) := fun he =>
    ⟨.expr _ he.spelled, fun path hpath => Or.inl (he.paths path hpath)⟩
  unfold comparison at hcompile
  rw [hlocate] at hcompile
  obtain ⟨_, hlocated, hcompile⟩ := Result.bind_eq_ok.1 hcompile
  cases hlocated
  dsimp only at hcompile
  rw [hoperand] at hcompile
  obtain ⟨_, hread, hcompile⟩ := Result.bind_eq_ok.1 hcompile
  cases hread
  unfold OperandIsLiteral at hliteral
  cases hfunction : c.function with
  | none =>
      rw [hfunction] at hcompile hliteral
      obtain ⟨positive, hpositive, hfilter⟩ := Result.bind_eq_ok.1 hcompile
      cases hfilter
      exact ⟨(spelled_fieldFilter hpositive hfield hliteral).negateIf _,
        (isWithin_fieldFilter hpositive).negateIf _⟩
  | some function =>
      rw [hfunction] at hcompile hliteral
      dsimp only at hliteral
      obtain ⟨e, htransforms, hcompile⟩ := Result.bind_eq_ok.1 hcompile
      have he := computedFrom_transforms hfunctions htransforms
      cases hpredicate : function.predicate? with
      | some name =>
          rw [hpredicate] at hcompile hliteral
          obtain ⟨called, hcalled, hfilter⟩ := Result.bind_eq_ok.1 hcompile
          cases hfilter
          obtain ⟨f, hf, rfl⟩ := call_eq_ok hcalled
          refine hexpr (he.apply (hfunctions f hf) _ fun v hv => ?_)
          obtain ⟨s, hs, rfl⟩ := List.mem_map.1 hv
          exact hliteral s hs
      | none =>
          rw [hpredicate] at hcompile hliteral
          obtain ⟨test, htest, hfilter⟩ := Result.bind_eq_ok.1 hcompile
          cases hfilter
          obtain ⟨hspelled, hwithin⟩ := hexpr (computedFrom_exprTest he htest hliteral)
          exact ⟨hspelled.negateIf _, hwithin.negateIf _⟩

/-- Where its operand is literal, a comparison is taken by the store for what it was compiled to,
and two documents that agree on the field of its attribute and below give the same result. -/
theorem comparison_literal {c : Comparison} {located : Located} {operand : Operand}
    {filter : Filter} (hlocate : t.registry.locate t.resource c.param c.path = .ok located)
    (hoperand : Operand.ofComparison c located.attr = .ok operand)
    (hcompile : t.comparison stem c = .ok filter)
    (hfield : isMarked (fieldOf stem located) = false)
    (hfunctions : ∀ f ∈ t.functions, f.2 ∉ takesNoList)
    (hliteral : OperandIsLiteral c located.attr operand) :
    Filter.read? filter.toJson = some filter ∧
      ∀ engine operators fields fields',
        (∀ path, Within (fieldOf stem located) path → fields path = fields' path) →
        (Engine.computing engine operators).holds fields filter =
          (Engine.computing engine operators).holds fields' filter := by
  obtain ⟨hspelled, hwithin⟩ :=
    spelled_comparison hlocate hoperand hcompile hfield hfunctions hliteral
  refine ⟨hspelled.read?_toJson, fun engine operators fields fields' hagree => ?_⟩
  exact Filter.holds_congr engine operators filter fun path hpath =>
    hagree path (hwithin path hpath)

end Target

/-- A value that is no structured document opens no operator. -/
theorem opensOperator_toJson {s : Scalar} (hs : ∀ v, s ≠ .json v) :
    opensOperator s.toJson = false := by
  cases s with
  | json v => exact absurd rfl (hs v)
  | _ => rfl

/-- The values of a typed kind are no structured documents. -/
theorem ne_json_of_read {kind : Kind} (hsingle : kind.isSingle = true) (htyped : kind ≠ .scalar)
    {value : Json} {s : Scalar} (hread : Scalar.read kind value = .ok s) : ∀ v, s ≠ .json v := by
  have hof : Scalar.ofKind? kind value = some s := by
    unfold Scalar.read at hread
    split at hread
    · cases hread
    · split at hread
      · cases hread
        assumption
      · cases hread
  rintro v rfl
  cases kind <;> cases value <;>
    simp_all [Scalar.ofKind?, Kind.isSingle, Scalar.ofNumberText?, Scalar.ofBoolText?,
      Scalar.ofDateText?, Scalar.ofJson]
  all_goals
    repeat' split at hof
    all_goals cases hof

/-- Without a chain of functions, the operand is literal for every attribute of a typed kind. -/
theorem operandIsLiteral_of_typed {c : Comparison} {attr : Attribute} {operand : Operand}
    (hplain : c.function = none) (haccepts : c.operator.accepts attr.kind = true)
    (hsingle : attr.kind.isSingle = true) (htyped : attr.kind ≠ .scalar)
    (hoperand : Operand.ofComparison c attr = .ok operand) : OperandIsLiteral c attr operand := by
  have hread := Operand.readFor_of_ofComparison hplain hoperand
  have harity := Operator.arity_positive c.operator
  unfold OperandIsLiteral
  rw [hplain]
  show IsLiteralFor c.operator.positive attr.kind operand
  unfold Operator.accepts Operator.kinds at haccepts
  cases hop : c.operator.positive
  case among =>
    rw [hop] at harity
    obtain ⟨given, items, _, hitems, rfl⟩ := Operand.many_of_readFor harity.symm hread
    intro s hs
    obtain ⟨v, _, hv⟩ := Result.mem_of_mapM_eq_ok hitems hs
    rw [Operand.itemKind, hop] at hv
    exact opensOperator_toJson (ne_json_of_read hsingle htyped hv)
  case overlap | contains =>
    rw [hop] at haccepts
    cases hkind : attr.kind <;> simp_all [Kind.isSingle]
  case year | month | day =>
    rw [hop] at harity
    obtain ⟨s, hs, rfl⟩ := Operand.one_of_readFor harity.symm hread
    rw [Operand.readSingle, hop] at hs
    dsimp only at hs
    unfold Scalar.readInteger at hs
    dsimp only at hs
    split at hs
    · cases hs
      intro s hs
      rw [List.mem_singleton.1 hs]
      rfl
    · cases hs
  all_goals trivial

namespace Accounts

/-- Accounts with a name, a secret that no request may compare, and a structured document. -/
def resource : Resource where
  name := "account"
  storage := "accounts"
  attributes := [{ name := "name", kind := .string }, { name := "specs", kind := .json }]

def target : Target where
  functions := [("lower", "$toLower")]
  registry := { entries := [⟨resource, .documentWith [("lower", "$toLower")]⟩] }
  resource := resource

/-- The name in small letters is a text. -/
def lowerIs (text : String) : Comparison where
  param := "name__func__lower__exact"
  path := ⟨[], "name"⟩
  operator := .function
  function := some ⟨["lower"], some .exact⟩
  value := .string text

/-- What the comparison with a text compiles to. -/
def lowerFilter (text : String) : Filter :=
  .expr (.apply "$eq" [.apply "$toLower" [.field "name"], .value (.string text)])

/-- The structured document holds an object. -/
def specsHold (entries : List (String × Json)) : Comparison where
  param := "search.specs__contains"
  path := ⟨[], "specs"⟩
  operator := .contains
  function := none
  value := .array [.object entries]

/-- A comparison with an ordinary text is taken for what it was compiled to. -/
theorem comparison_literal_ann :
    target.comparison Joins.defaultStem (lowerIs "ann") = .ok (lowerFilter "ann") ∧
      Filter.read? (lowerFilter "ann").toJson = some (lowerFilter "ann") := by
  have hcompile : target.comparison Joins.defaultStem (lowerIs "ann") =
      .ok (lowerFilter "ann") := rfl
  refine ⟨hcompile, ?_⟩
  have hlocate : target.registry.locate target.resource (lowerIs "ann").param
      (lowerIs "ann").path = .ok ⟨{ name := "name", kind := .string }, resource, []⟩ := rfl
  have hoperand : Operand.ofComparison (lowerIs "ann") { name := "name", kind := .string } =
      .ok (.one (.text "ann")) := rfl
  have hliteral : OperandIsLiteral (lowerIs "ann") { name := "name", kind := .string }
      (.one (.text "ann")) := by
    intro s hs
    rw [List.mem_singleton.1 hs]
    decide
  exact (Target.comparison_literal hlocate hoperand hcompile (by decide) (by decide) hliteral).1

/-- The name in small letters is the value of another field. -/
def lowerIsSecret : Filter :=
  .expr (.apply "$eq" [.apply "$toLower" [.field "name"], .field "secret"])

/-- An account of Ann with a secret. -/
def ann (secret : String) : Fields := fun path =>
  if path = "secret" then .text secret else .text "ann"

/-- Equality of two values, and any other operator as the identity. -/
def operators : Operators where
  apply
    | "$eq", [x, y] => .bool (x == y)
    | _, [x] => x
    | _, _ => .null
  regexMatch _ _ _ := .bool false

/-- Small letters of a name compared with `$secret` are compared with the secret itself, so that two
accounts of one name are told apart; and an object below a key that should be contained is taken for
operators, so that every color is found. -/
theorem comparison_reads_operand :
    (FilterBuilder.readParam resource {} "name__func__lower__exact" ["$secret"] =
        .ok (.comparison (lowerIs "$secret")) ∧
      (lowerIs "$secret").validate target.registry resource = .ok () ∧
      target.comparison Joins.defaultStem (lowerIs "$secret") = .ok (lowerFilter "$secret") ∧
      Filter.read? (lowerFilter "$secret").toJson = some lowerIsSecret ∧
      ∃ engine fields fields', (∀ path, Within "name" path → fields path = fields' path) ∧
        (Engine.computing engine operators).holds fields lowerIsSecret ≠
          (Engine.computing engine operators).holds fields' lowerIsSecret) ∧
    FilterDocument.read resource
        "\x7b\"specs__contains\": [\x7b\"color\": \x7b\"$gt\": \"\"\x7d\x7d]\x7d" =
      .ok (some (.comparison (specsHold [("color", .object [("$gt", .string "")])]))) ∧
    (specsHold [("color", .object [("$gt", .string "")])]).validate target.registry resource =
      .ok () ∧
    target.comparison Joins.defaultStem (specsHold [("color", .object [("$gt", .string "")])]) =
      .ok (.field "specs.color" (.is (.object [("$gt", .string "")]))) ∧
    Filter.read? (Filter.field "specs.color" (.is (.object [("$gt", .string "")]))).toJson =
      some (.field "specs.color" (.compare .gt (.string ""))) := by
  have hagree : ∀ path, Within "name" path → ann "ann" path = ann "bob" path := by
    intro path hwithin
    have hsecret : path ≠ "secret" := by
      rintro rfl
      rcases hwithin with hname | ⟨name, hname⟩
      · revert hname
        decide
      · simpa using congrArg String.toList hname
    simp [ann, hsecret]
  refine ⟨⟨by cbv, rfl, rfl, rfl, ⟨fun _ _ _ => false, fun _ _ => false,
    fun _ _ _ => false, fun _ _ => false⟩, ann "ann", ann "bob", hagree, by decide⟩,
    by cbv, rfl, rfl, rfl⟩

end Accounts
end Listing.Document

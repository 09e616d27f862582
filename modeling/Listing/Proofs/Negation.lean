/-
# Negated operators

A negated operator denies what its positive form says, so that a comparison with it should find
what the negation of the positive comparison finds. Relational and document stores compile the two
to the same query. A search index puts the negation of an operator inside of the lists that the
path passes through, and the negation of a node outside of them: the one asks for an object that
fails the positive test, the other for no object that passes it. They agree on a document exactly
if the lists hold an object and all objects of them fare alike in the test, and so wherever the
path passes through no list.

What a compiler gives does not depend on the parameter that a comparison comes from; only errors
name it.
-/
import Listing.Compiled
import Listing.Proofs.NestedGroups
import Listing.Proofs.SqlCondition
import Listing.Proofs.Support.Document

namespace Listing

section Results

variable {ε α β : Type}

theorem Result.toOption_bind (x : Except ε α) (f : α → Except ε β) :
    (x >>= f).toOption = x.toOption.bind fun a => (f a).toOption := by
  cases x <;> rfl

/-- Sequences give the same if their halves do, whatever their errors are. -/
theorem Result.toOption_bind_congr {x x' : Except ε α} {f f' : α → Except ε β}
    (hx : x.toOption = x'.toOption) (hf : ∀ a, (f a).toOption = (f' a).toOption) :
    (x >>= f).toOption = (x' >>= f').toOption := by
  rw [Result.toOption_bind, Result.toOption_bind, hx]
  exact congrArg _ (funext hf)

/-- A run through a list gives the same if each step does. -/
theorem Result.toOption_foldlM_congr {f f' : β → α → Except ε β}
    (hf : ∀ b a, (f b a).toOption = (f' b a).toOption) (xs : List α) (b : β) :
    (xs.foldlM f b).toOption = (xs.foldlM f' b).toOption := by
  induction xs generalizing b with
  | nil => rfl
  | cons x xs ih =>
      rw [List.foldlM_cons, List.foldlM_cons]
      exact Result.toOption_bind_congr (hf b x) ih

end Results

namespace Comparison

/-- The values are compared by a negated operator. -/
def isNegated (c : Comparison) : Bool :=
  match c.function with
  | none => c.operator.isNegated
  | some f => f.compare.any (·.isNegated)

/-- The comparison by the positive form of the operator, given in another place. -/
def positive (c : Comparison) (param : String) : Comparison where
  param
  path := c.path
  operator := c.operator.positive
  function := c.function.map fun f => { f with compare := f.compare.map (·.positive) }
  value := c.value

/-- The negated operator of a comparison stands by itself or after a chain of functions. -/
theorem isNegated_cases {c : Comparison} (hnegated : c.isNegated = true) :
    (c.function = none ∧ c.operator.isNegated = true) ∨
      ∃ names op, c.function = some ⟨names, some op⟩ ∧ op.isNegated = true := by
  unfold isNegated at hnegated
  split at hnegated
  · rename_i hfunction
    exact .inl ⟨hfunction, hnegated⟩
  · rename_i f hfunction
    obtain ⟨names, compare⟩ := f
    cases compare with
    | none => simp at hnegated
    | some op => exact .inr ⟨names, op, hfunction, by simpa using hnegated⟩

end Comparison

section Operands

theorem Registry.toOption_locate (registry : Registry) (start : Resource) (param param' : String)
    (path : Path) : (registry.locate start param path).toOption
      = (registry.locate start param' path).toOption := by
  apply Result.toOption_bind_congr
  · unfold Registry.route
    split <;> rfl
  · intro route
    dsimp only
    split <;> rfl

theorem Operator.isNegated_positive (op : Operator) : op.positive.isNegated = false := by
  simp [Operator.isNegated, Operator.positive_positive]

theorem Operand.toOption_readList (op op' : Operator) (value : Json) :
    (Operand.readList op value).toOption = (Operand.readList op' value).toOption := by
  unfold Operand.readList
  split <;> rfl

/-- The operand of a positive form is that of the operator. -/
theorem Operand.toOption_readFor (op : Operator) (kind elementKind : Kind) (value : Json) :
    (Operand.readFor op.positive kind elementKind value).toOption
      = (Operand.readFor op kind elementKind value).toOption := by
  have hkind : Operand.itemKind op.positive kind elementKind
      = Operand.itemKind op kind elementKind := by
    rw [Operand.itemKind, Operand.itemKind, Operator.positive_positive]
  unfold Operand.readFor
  rw [Operator.arity_positive, hkind]
  cases op.arity with
  | unary | function => rfl
  | range =>
      apply Result.toOption_bind_congr (Operand.toOption_readList op.positive op value)
      intro items
      split <;> rfl
  | list =>
      exact Result.toOption_bind_congr (Operand.toOption_readList op.positive op value)
        fun _ => rfl
  | binary =>
      refine Result.toOption_bind_congr ?_ fun _ => rfl
      unfold Operand.readSingle
      rw [Operator.positive_positive]
      cases op.positive <;> dsimp only <;> split <;> rfl

theorem Operator.positive_eq_predicate {op : Operator} :
    op.positive = .predicate ↔ op = .predicate := by
  cases op <;> decide

/-- An operand that was read is what is left of it when its faults are given a place. -/
theorem Operand.toOption_of_read (x : Except ParameterFault Operand) (param : String) :
    (match x with
      | .ok operand => (.ok operand : Result Operand)
      | .error fault => .error (.malformedParameter param fault)).toOption = x.toOption := by
  cases x <;> rfl

/-- The operand of the positive comparison is that of the comparison. -/
theorem Operand.toOption_ofComparison (c : Comparison) (param : String) (attr : Attribute) :
    (Operand.ofComparison (c.positive param) attr).toOption
      = (Operand.ofComparison c attr).toOption := by
  refine (toOption_of_read _ _).trans (Eq.trans ?_ (toOption_of_read _ _).symm)
  unfold Comparison.positive
  cases c.function with
  | none => exact Operand.toOption_readFor c.operator attr.kind attr.elementKind c.value
  | some f =>
      simp only [Option.map_some, Operator.positive_eq_predicate]
      split
      · rfl
      · cases f.compare with
        | none => rfl
        | some op => exact Operand.toOption_readFor op .scalar .scalar c.value

end Operands

namespace Sql.Target

variable {t : Target}

theorem toOption_columnOf (stem param param' : String) (located : Located) :
    (t.columnOf stem param located).toOption = (t.columnOf stem param' located).toOption := by
  refine Result.toOption_bind_congr ?_ fun _ => rfl
  unfold checkReferences
  split <;> rfl

theorem toOption_call (param param' name : String) (arguments : List Expr) :
    (t.call param name arguments).toOption = (t.call param' name arguments).toOption := by
  unfold call
  dsimp only
  split <;> rfl

theorem toOption_test (param param' : String) (op : Operator) (kind : Kind) (e : Expr)
    (operand : Operand) :
    (t.test param op kind e operand).toOption = (t.test param' op kind e operand).toOption := by
  cases op
  case range => cases operand <;> rfl
  case search =>
    unfold test searchTest
    cases t.dialect <;> rfl
  all_goals first
    | rfl
    | (unfold test
       dsimp only
       split <;> rfl)

/-- A negated comparison compiles to the negation of what the positive one compiles to. -/
theorem toOption_comparison_negated (stem : String) {c : Comparison}
    (hnegated : c.isNegated = true) (param : String) :
    (t.comparison stem c).toOption
      = (Expr.not <$> t.comparison stem (c.positive param)).toOption := by
  unfold comparison
  rw [map_bind]
  apply Result.toOption_bind_congr (t.registry.toOption_locate t.resource c.param param c.path)
  intro located
  rw [map_bind]
  apply Result.toOption_bind_congr (toOption_columnOf stem c.param param located)
  intro column
  rw [map_bind]
  apply Result.toOption_bind_congr (Operand.toOption_ofComparison c param located.attr).symm
  intro operand
  obtain ⟨hfunction, hop⟩ | ⟨names, op, hfunction, hop⟩ := Comparison.isNegated_cases hnegated
  · simp only [Comparison.positive, hfunction, Option.map_none, map_bind,
      Operator.positive_positive, Operator.isNegated_positive, hop]
    exact Result.toOption_bind_congr
      (toOption_test c.param param c.operator.positive located.attr.kind column operand)
      fun _ => rfl
  · simp only [Comparison.positive, Comparison.valueOperator, valueOperator, hfunction,
      FunctionChain.transforms, FunctionChain.predicate?, Option.map_some, Option.bind_some,
      Option.getD_some, map_bind, Operator.positive_positive, Operator.isNegated_positive, hop]
    apply Result.toOption_bind_congr
    · exact Result.toOption_foldlM_congr
        (fun e name => toOption_call c.param param name [e]) names column
    · intro e
      exact Result.toOption_bind_congr
        (toOption_test c.param param op.positive .scalar e operand) fun _ => rfl

/-- A negated comparison compiles to the condition of the negation of the positive one. -/
theorem toOption_condition_negated (stem : String) {c : Comparison}
    (hnegated : c.isNegated = true) (param : String) :
    (t.condition stem (.comparison c)).toOption
      = (t.condition stem (.node .not [.comparison (c.positive param)])).toOption := by
  rw [condition, toOption_comparison_negated stem hnegated param, condition, conditions, condition,
    conditions]
  cases t.comparison stem (c.positive param) <;> rfl

/-- A request filtered by a negated comparison compiles to the query of the same request filtered
by the negation of the positive comparison. -/
theorem toOption_compile_negated (request : Request) {c : Comparison}
    (hnegated : c.isNegated = true) (param : String) :
    (t.compile { request with filter := some (.comparison c) }).toOption
      = (t.compile { request with
          filter := some (.node .not [.comparison (c.positive param)]) }).toOption := by
  have hselection : (t.selection (some (.comparison c))).toOption
      = (t.selection (some (.node .not [.comparison (c.positive param)]))).toOption := by
    have hpaths : Listing.Filter.paths (.node .not [.comparison (c.positive param)])
        = Listing.Filter.paths (.comparison c) := rfl
    unfold selection
    dsimp only [Option.map_some, Option.getD_some]
    rw [hpaths]
    refine Result.toOption_bind_congr ?_ fun _ => rfl
    exact Result.toOption_bind_congr
      (toOption_condition_negated Joins.defaultStem hnegated param) fun _ => rfl
  exact Result.toOption_bind_congr hselection fun _ => rfl

end Sql.Target

namespace Document.Target

variable {t : Target}

theorem toOption_fieldFilter (param param' : String) (op : Operator) (attr : Attribute)
    (field : String) (operand : Operand) :
    (fieldFilter param op attr field operand).toOption
      = (fieldFilter param' op attr field operand).toOption := by
  cases op
  case range => cases operand <;> rfl
  all_goals rfl

theorem toOption_exprTest (param param' : String) (op : Operator) (e : Expr) (operand : Operand) :
    (exprTest param op e operand).toOption = (exprTest param' op e operand).toOption := by
  cases op
  case range => cases operand <;> rfl
  all_goals rfl

theorem toOption_call (param param' name : String) (arguments : List Expr) :
    (t.call param name arguments).toOption = (t.call param' name arguments).toOption := by
  unfold call
  split <;> rfl

/-- A negated comparison compiles to the negation of what the positive one compiles to. -/
theorem toOption_comparison_negated (stem : String) {c : Comparison}
    (hnegated : c.isNegated = true) (param : String) :
    (t.comparison stem c).toOption
      = ((fun f => Filter.nor [f]) <$> t.comparison stem (c.positive param)).toOption := by
  unfold comparison
  rw [map_bind]
  apply Result.toOption_bind_congr (t.registry.toOption_locate t.resource c.param param c.path)
  intro located
  dsimp only
  rw [map_bind]
  apply Result.toOption_bind_congr (Operand.toOption_ofComparison c param located.attr).symm
  intro operand
  obtain ⟨hfunction, hop⟩ | ⟨names, op, hfunction, hop⟩ := Comparison.isNegated_cases hnegated
  · simp only [Comparison.positive, hfunction, Option.map_none, map_bind,
      Operator.positive_positive, Operator.isNegated_positive, hop]
    exact Result.toOption_bind_congr
      (toOption_fieldFilter c.param param c.operator.positive located.attr _ operand)
      fun _ => rfl
  · simp only [Comparison.positive, Comparison.valueOperator, valueOperator, hfunction,
      FunctionChain.transforms, FunctionChain.predicate?, Option.map_some, Option.bind_some,
      Option.getD_some, map_bind, Operator.positive_positive, Operator.isNegated_positive, hop]
    apply Result.toOption_bind_congr
    · exact Result.toOption_foldlM_congr
        (fun e name => toOption_call c.param param name [e]) names _
    · intro e
      exact Result.toOption_bind_congr
        (toOption_exprTest c.param param op.positive e operand) fun _ => rfl

/-- A negated comparison compiles to the filter of the negation of the positive one. -/
theorem toOption_condition_negated (stem : String) {c : Comparison}
    (hnegated : c.isNegated = true) (param : String) :
    (t.condition stem (.comparison c)).toOption
      = (t.condition stem (.node .not [.comparison (c.positive param)])).toOption := by
  rw [condition, toOption_comparison_negated stem hnegated param, condition, conditions, condition,
    conditions]
  cases t.comparison stem (c.positive param) <;> rfl

/-- A request filtered by a negated comparison compiles to the query of the same request filtered
by the negation of the positive comparison. -/
theorem toOption_compile_negated (request : Request) {c : Comparison}
    (hnegated : c.isNegated = true) (param : String) :
    (t.compile { request with filter := some (.comparison c) }).toOption
      = (t.compile { request with
          filter := some (.node .not [.comparison (c.positive param)]) }).toOption := by
  have hpaths : Listing.Filter.paths (.node .not [.comparison (c.positive param)])
      = Listing.Filter.paths (.comparison c) := rfl
  unfold compile
  dsimp only [Option.map_some, Option.getD_some]
  rw [hpaths]
  refine Result.toOption_bind_congr ?_ fun _ => rfl
  exact Result.toOption_bind_congr
    (toOption_condition_negated Joins.defaultStem hnegated param) fun _ => rfl

end Document.Target

namespace SearchIndex

/-- The negation of the clause of a part, inside of the lists of the part. -/
def Scoped.negate (s : Scoped) : Scoped := { s with clause := .none [s.clause] }

namespace Target

variable {t : Target}

theorem toOption_field (param param' : String) (path : Path) :
    (t.field param path).toOption = (t.field param' path).toOption := by
  apply Result.toOption_bind_congr (t.registry.toOption_locate t.resource param param' path)
  intro located
  refine Result.toOption_bind_congr ?_ fun _ => rfl
  unfold checkEmbedded
  split <;> rfl

theorem toOption_fieldClause (param param' : String) (op : Operator) (field : Field)
    (operand : Operand) :
    (fieldClause param op field operand).toOption
      = (fieldClause param' op field operand).toOption := by
  cases op
  case range => cases operand <;> rfl
  all_goals rfl

/-- A negated comparison denies the test of the positive one inside of the lists. -/
theorem toOption_comparison_negated {c : Comparison} (hnegated : c.isNegated = true)
    (param : String) :
    (t.comparison c).toOption
      = (Scoped.negate <$> t.comparison (c.positive param)).toOption := by
  obtain ⟨hfunction, hop⟩ | ⟨names, op, hfunction, hop⟩ := Comparison.isNegated_cases hnegated
  · simp only [comparison, Comparison.positive, hfunction, Option.map_none, map_bind,
      Operator.positive_positive, Operator.isNegated_positive, hop]
    apply Result.toOption_bind_congr (toOption_field c.param param c.path)
    intro field
    have hpositive : c.positive param = { c with param, operator := c.operator.positive } := by
      simp [Comparison.positive, hfunction]
    have hoperand := (Operand.toOption_ofComparison c param field.attr).symm
    rw [hpositive, hfunction] at hoperand
    apply Result.toOption_bind_congr hoperand
    intro operand
    exact Result.toOption_bind_congr
      (toOption_fieldClause c.param param c.operator.positive field operand) fun _ => rfl
  · simp only [comparison, Comparison.positive, hfunction, Option.map_some]
    rfl

/-- A filter can be compiled whenever the request can be without it. -/
theorem exists_compile_iff (request : Request) (f : Filter) :
    (∃ query, t.compile { request with filter := some f } = .ok query) ↔
      (∃ part, t.condition f = .ok part) ∧
        ∃ query, t.compile { request with filter := none } = .ok query := by
  unfold compile
  dsimp only
  cases hpart : t.condition f with
  | error e => simp [Option.mapM_some, hpart, Functor.map, Except.map, bind, Except.bind]
  | ok part =>
      cases request.order.mapM t.sortKey <;>
        cases request.aggregate.groupBy.mapM t.dimension <;>
        cases request.aggregate.metrics.mapM t.metricField <;>
        simp [hpart, Functor.map, Except.map, bind, Except.bind, pure, Except.pure]

/-- The parts of a negated comparison and of the negation of the positive one, by the part of the
positive one. -/
theorem exists_part_negated {c : Comparison} (hnegated : c.isNegated = true) (param : String)
    {part : Scoped} (hpart : t.condition (.comparison c) = .ok part) :
    ∃ test, t.condition (.comparison (c.positive param)) = .ok test ∧ part = test.negate := by
  rw [condition] at hpart ⊢
  have hsome := toOption_comparison_negated (t := t) hnegated param
  rw [hpart] at hsome
  obtain ⟨test, htest, hnegate⟩ := Result.map_eq_ok.1 (Result.toOption_eq_some.1 hsome.symm)
  exact ⟨test, htest, hnegate.symm⟩

/-- A negation is accepted if what it negates is. -/
theorem condition_not {f : Filter} {part : Scoped} (hpart : t.condition f = .ok part) :
    t.condition (.node .not [f]) = .ok { clause := connect .not [part] } := by
  rw [condition, conditions, hpart, conditions]
  rfl

/-- A negated comparison is accepted exactly if the negation of the positive one is. -/
theorem exists_part_negated_iff {c : Comparison} (hnegated : c.isNegated = true) (param : String) :
    (∃ part, t.condition (.comparison c) = .ok part) ↔
      ∃ part, t.condition (.node .not [.comparison (c.positive param)]) = .ok part := by
  constructor
  · rintro ⟨part, hpart⟩
    obtain ⟨test, htest, _⟩ := exists_part_negated hnegated param hpart
    exact ⟨_, condition_not htest⟩
  · rintro ⟨denial, hdenial⟩
    rw [condition, conditions] at hdenial
    obtain ⟨_, hparts, _⟩ := Result.bind_eq_ok.1 hdenial
    obtain ⟨test, htest, _⟩ := Result.bind_eq_ok.1 hparts
    rw [condition] at htest
    have hsome := toOption_comparison_negated (t := t) hnegated param
    rw [htest] at hsome
    exact ⟨test.negate, by rw [condition]; exact Result.toOption_eq_some.1 hsome⟩

section Agreement

variable {α : Type} (index : Index α)

variable (t) in
/-- There are objects at the end of the lists of a comparison, and its test is the same for all of
them. -/
def FareAlike (o : α) (c : Comparison) : Prop :=
  index.chains o (t.listsOf c.path) ≠ [] ∧
    ((∀ inner ∈ index.chains o (t.listsOf c.path), t.Satisfies index c inner) ∨
      ∀ inner ∈ index.chains o (t.listsOf c.path), ¬ t.Satisfies index c inner)

/-- Where a path passes through no list, there is one object to test: the document. -/
theorem fareAlike_of_plain {c : Comparison} (hplain : ¬ t.CrossesList c.path) (o : α) :
    t.FareAlike index o c := by
  have hlists : t.listsOf c.path = [] := by
    rw [listsOf, listPaths_eq_nil]
    intro hop hhop
    by_contra hmany
    exact hplain ⟨hop, hhop, by simpa using hmany⟩
  rw [FareAlike, hlists]
  simp [Index.chains, em]

/-- Some element fails a test exactly if none passes it, where there are elements and all of them
fare alike. -/
theorem exists_not_iff_not_exists {β : Type} {p : β → Prop} (xs : List β) :
    ((∃ x ∈ xs, ¬ p x) ↔ ¬ ∃ x ∈ xs, p x) ↔ xs ≠ [] ∧ ((∀ x ∈ xs, p x) ∨ ∀ x ∈ xs, ¬ p x) := by
  rcases xs.eq_nil_or_concat with rfl | ⟨rest, last, rfl⟩
  · simp
  · constructor
    · intro hiff
      refine ⟨by simp, ?_⟩
      by_cases hsome : ∃ x ∈ rest.concat last, p x
      · left
        intro x hx
        by_contra hp
        exact hiff.1 ⟨x, hx, hp⟩ hsome
      · right
        exact fun x hx hp => hsome ⟨x, hx, hp⟩
    · rintro ⟨_, hall | hnone⟩
      · have hlast : p last := hall last (by simp)
        refine ⟨fun ⟨x, hx, hp⟩ => absurd (hall x hx) hp, fun hno => ?_⟩
        exact absurd ⟨last, by simp, hlast⟩ hno
      · refine ⟨fun _ ⟨x, hx, hp⟩ => hnone x hx hp, fun _ => ⟨last, by simp, hnone last (by simp)⟩⟩

/-- A negated operator and the negation of its positive form find the same documents exactly where
the objects in the lists fare alike. -/
theorem holds_negated_iff {request : Request} {c : Comparison} (hnegated : c.isNegated = true)
    (param : String) {query negation : Query}
    (hquery : t.compile { request with filter := some (.comparison c) } = .ok query)
    (hnegation : t.compile { request with
      filter := some (.node .not [.comparison (c.positive param)]) } = .ok negation) (o : α) :
    index.holds o query.clause = index.holds o negation.clause ↔
      t.FareAlike index o (c.positive param) := by
  obtain ⟨part, hpart, hholds⟩ := holds_filtered index hquery rfl
  obtain ⟨denial, hdenial, hdenied⟩ := holds_filtered index hnegation rfl
  obtain ⟨test, htest, rfl⟩ := exists_part_negated hnegated param hpart
  obtain rfl := Except.ok.inj ((condition_not htest).symm.trans hdenial)
  have hlists : test.lists = t.listsOf (c.positive param).path := lists_of_comparison htest
  have hinside : index.holds o query.clause = true ↔
      ∃ inner ∈ index.chains o test.lists, ¬ t.Satisfies index (c.positive param) inner := by
    rw [hholds, holds_close]
    refine exists_congr fun inner => and_congr_right fun _ => ?_
    rw [← holds_of_comparison htest, Scoped.negate, Index.holds_none]
    simp
  have houtside : index.holds o negation.clause = true ↔
      ¬ ∃ inner ∈ index.chains o test.lists, t.Satisfies index (c.positive param) inner := by
    have hclose : Scoped.close { clause := connect .not [test] } = connect .not [test] := rfl
    rw [hdenied, hclose, holds_connect_not, holds_close]
    refine not_congr (exists_congr fun inner => and_congr_right fun _ => ?_)
    exact holds_of_comparison htest inner
  rw [Bool.eq_iff_iff, hinside, houtside, exists_not_iff_not_exists, FareAlike, hlists]

end Agreement

end Target
end SearchIndex

/-- A comparison by a negated operator and the negation of the positive comparison, as the filter
of the same request. Relational and document stores compile them to the same query. A search index
accepts both or neither, and finds the same documents with both exactly where the objects in the
lists of the path fare alike, which they do wherever it passes through no list. -/
theorem Comparison.compile_negated (registry : Registry) (resource : Resource) (request : Request)
    {c : Comparison} (hnegated : c.isNegated = true) (param : String) :
    let negated : Request := { request with filter := some (.comparison c) }
    let denied : Request := { request with
      filter := some (.node .not [.comparison (c.positive param)]) }
    let search : SearchIndex.Target := ⟨registry, resource⟩
    (∀ dialect functions,
      (Sql.Target.compile ⟨dialect, functions, registry, resource⟩ negated).toOption
        = (Sql.Target.compile ⟨dialect, functions, registry, resource⟩ denied).toOption) ∧
    (∀ functions,
      (Document.Target.compile ⟨functions, registry, resource⟩ negated).toOption
        = (Document.Target.compile ⟨functions, registry, resource⟩ denied).toOption) ∧
    ((∃ query, search.compile negated = .ok query) ↔
      ∃ query, search.compile denied = .ok query) ∧
    ∀ query negation, search.compile negated = .ok query → search.compile denied = .ok negation →
      ∀ {α : Type} (index : SearchIndex.Index α) (o : α),
        (index.holds o query.clause = index.holds o negation.clause ↔
          search.FareAlike index o (c.positive param)) ∧
        (¬ search.CrossesList c.path →
          index.holds o query.clause = index.holds o negation.clause) := by
  intro negated denied search
  refine ⟨fun _ _ => Sql.Target.toOption_compile_negated request hnegated param,
    fun _ => Document.Target.toOption_compile_negated request hnegated param, ?_, ?_⟩
  · rw [SearchIndex.Target.exists_compile_iff, SearchIndex.Target.exists_compile_iff]
    exact and_congr_left fun _ => SearchIndex.Target.exists_part_negated_iff hnegated param
  · intro query negation hquery hnegation α index o
    have hiff := SearchIndex.Target.holds_negated_iff index hnegated param hquery hnegation o
    refine ⟨hiff, fun hplain => hiff.2 ?_⟩
    exact SearchIndex.Target.fareAlike_of_plain index (c := c.positive param) hplain o

namespace SearchIndex.Blog

/-- A comment is not by Ann. -/
def notByAnn : Comparison where
  param := "comments__author__notexact"
  path := ⟨["comments"], "author"⟩
  operator := .notExact
  function := none
  value := .string "Ann"

/-- The queries for articles with a comment that is not by Ann, and for articles without a comment
by Ann. -/
def byOthers : Query :=
  { query with clause := .nested "comments" (.none [.term "comments.author" (.string "Ann")]) }

def withoutAnn : Query :=
  { query with clause := .none [.nested "comments" (.term "comments.author" (.string "Ann"))] }

theorem compile_byOthers :
    target.compile { filter := some (.comparison notByAnn) } = .ok byOthers := rfl

theorem compile_withoutAnn :
    target.compile { filter := some (.node .not [.comparison (notByAnn.positive "search")]) }
      = .ok withoutAnn := rfl

/-- All comments are by others: both queries find the article. -/
theorem compile_negated_byOthers :
    index.holds ⟨"Cid", 0, [⟨"Bob", 1, []⟩, ⟨"Dan", 2, []⟩]⟩ byOthers.clause
        = index.holds ⟨"Cid", 0, [⟨"Bob", 1, []⟩, ⟨"Dan", 2, []⟩]⟩ withoutAnn.clause ∧
      target.FareAlike index ⟨"Cid", 0, [⟨"Bob", 1, []⟩, ⟨"Dan", 2, []⟩]⟩
        (notByAnn.positive "search") := by
  obtain ⟨_, _, _, hsearch⟩ :=
    Comparison.compile_negated target.registry target.resource {} (c := notByAnn) rfl "search"
  have hiff := (hsearch _ _ compile_byOthers compile_withoutAnn index
    ⟨"Cid", 0, [⟨"Bob", 1, []⟩, ⟨"Dan", 2, []⟩]⟩).1
  exact ⟨by decide, hiff.1 (by decide)⟩

/-- One comment is by Ann and one is not: the negated operator finds the article, which the
negation of the positive operator does not find. -/
theorem compile_negated_of_two_comments :
    notByAnn.isNegated = true ∧
      target.compile { filter := some (.comparison notByAnn) } = .ok byOthers ∧
      target.compile { filter := some (.node .not [.comparison (notByAnn.positive "search")]) }
        = .ok withoutAnn ∧
      index.holds ⟨"Cid", 0, [⟨"Ann", 1, []⟩, ⟨"Bob", 2, []⟩]⟩ byOthers.clause = true ∧
      index.holds ⟨"Cid", 0, [⟨"Ann", 1, []⟩, ⟨"Bob", 2, []⟩]⟩ withoutAnn.clause = false :=
  ⟨rfl, compile_byOthers, compile_withoutAnn, by decide, by decide⟩

end SearchIndex.Blog
end Listing

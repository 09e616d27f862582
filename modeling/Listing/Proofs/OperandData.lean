/-
# Operands never reach the text

Two requests have the same shape if they differ at most in the operands of their comparisons, and
lists of operands are equally long. Compiled for any dialect, such requests are sent with the same
text and the same number of values, or refused with the same error: what a client writes as an
operand is bound, and never becomes part of a statement.

The proof compares two runs of the compiler. At every step the two results are equal once their
values are blanked; an operand enters only where it is wrapped as a value.
-/
import Listing.Proofs.FilterTree
import Listing.Proofs.SqlCondition
import Listing.Proofs.SqlText

namespace Listing

/-- How many operands a value of a request gives. -/
def Json.itemCount : Json → Nat
  | .null => 0
  | .array items => items.length
  | _ => 1

/-- Whether a comparison takes any number of operands: a list, or the arguments of a predicate. -/
def Comparison.takesMany (c : Comparison) : Bool :=
  c.valueOperator.arity == .list || c.function.any (·.compare.isNone)

/-- A comparison without its operand, but for the number of items where it takes any number. -/
def Comparison.shape (c : Comparison) : Comparison :=
  { c with value := .int (if c.takesMany then c.value.itemCount else 0) }

mutual
/-- A filter without the operands of its comparisons. -/
def Filter.shape : Filter → Filter
  | .comparison c => .comparison c.shape
  | .fullText f => .fullText f
  | .node connective children => .node connective (Filter.shapes children)

/-- Several filters without the operands of their comparisons. -/
def Filter.shapes : List Filter → List Filter
  | [] => []
  | f :: fs => f.shape :: Filter.shapes fs
end

/-- A request without the operands of its comparisons. -/
def Request.shape (request : Request) : Request :=
  { request with filter := request.filter.map Filter.shape }

theorem Filter.shapes_eq_map (fs : List Filter) : shapes fs = fs.map shape := by
  induction fs with
  | nil => rfl
  | cons f fs ih =>
      rw [shapes, ih]
      rfl

/-- The leaves of a shape are the shapes of the leaves. -/
theorem Filter.leaves_shape (f : Filter) : f.shape.leaves = f.leaves.map shape := by
  induction f with
  | comparison c => rfl
  | fullText f => rfl
  | node connective children ih =>
      rw [shape, leaves_node, leaves_node, shapes_eq_map, List.flatMap_map, List.map_flatMap,
        List.flatMap_def, List.flatMap_def, List.map_congr_left ih]

/-- The paths of a filter depend only on its shape. -/
theorem Filter.paths_shape (f : Filter) : f.shape.paths = f.paths := by
  rw [paths, paths, leaves_shape, List.filterMap_map]
  congr 1
  funext leaf
  cases leaf <;> rfl

theorem Filter.paths_congr {f f' : Filter} (hshape : f.shape = f'.shape) : f.paths = f'.paths := by
  rw [← f.paths_shape, hshape, f'.paths_shape]

namespace Operand

/-- Two operands have as many values, and both or neither of them two bounds. -/
structure Alike (o o' : Operand) : Prop where
  length : o.values.length = o'.values.length
  bounds : (∃ low high, o = .bounds low high) ↔ ∃ low high, o' = .bounds low high

/-- The list that is read has as many items as were given. -/
theorem length_of_readList {op : Operator} {value : Json} {given : List Json}
    (hread : readList op value = .ok given) : given.length = value.itemCount := by
  unfold readList at hread
  split at hread
  · cases hread
  · cases hread
    rfl
  · cases hread

/-- Operands read for one operator are alike, if lists are equally long. -/
theorem alike_of_readFor {op : Operator} {kind elementKind : Kind} {value value' : Json}
    {o o' : Operand} (hread : readFor op kind elementKind value = .ok o)
    (hread' : readFor op kind elementKind value' = .ok o')
    (hcount : op.arity = .list → value.itemCount = value'.itemCount) : o.Alike o' := by
  cases harity : op.arity with
  | unary | function =>
      rw [readFor, harity] at hread hread'
      cases hread
      cases hread'
      exact ⟨rfl, Iff.rfl⟩
  | binary =>
      obtain ⟨s, _, rfl⟩ := one_of_readFor harity hread
      obtain ⟨s', _, rfl⟩ := one_of_readFor harity hread'
      exact ⟨rfl, by simp⟩
  | list =>
      obtain ⟨given, items, hgiven, hitems, rfl⟩ := many_of_readFor harity hread
      obtain ⟨given', items', hgiven', hitems', rfl⟩ := many_of_readFor harity hread'
      refine ⟨?_, by simp⟩
      rw [values, values, Result.length_of_mapM_eq_ok hitems, Result.length_of_mapM_eq_ok hitems',
        length_of_readList hgiven, length_of_readList hgiven', hcount harity]
  | range =>
      obtain ⟨low, high, rfl, _⟩ := bounds_of_readFor harity hread
      obtain ⟨low', high', rfl, _⟩ := bounds_of_readFor harity hread'
      exact ⟨rfl, by simp⟩

theorem length_values_arguments (value : Json) :
    (arguments value).values.length = value.itemCount := by
  cases value <;> simp [arguments, values, Json.itemCount]

theorem arguments_ne_bounds (value : Json) (low high : Scalar) :
    arguments value ≠ .bounds low high := by
  cases value <;> simp [arguments]

/-- What comparisons of one shape have in common. -/
theorem eq_of_shape {c c' : Comparison} (hshape : c.shape = c'.shape) :
    c.param = c'.param ∧ c.path = c'.path ∧ c.operator = c'.operator ∧
      c.function = c'.function ∧ (c.takesMany = true → c.value.itemCount = c'.value.itemCount) := by
  rw [Comparison.shape, Comparison.shape, Comparison.mk.injEq] at hshape
  obtain ⟨hparam, hpath, hoperator, hfunction, hvalue⟩ := hshape
  refine ⟨hparam, hpath, hoperator, hfunction, fun htakes => ?_⟩
  have htakes' : c'.takesMany = true := by
    rw [← htakes, Comparison.takesMany, Comparison.takesMany, Comparison.valueOperator,
      Comparison.valueOperator, hoperator, hfunction]
  rw [htakes, htakes', if_pos rfl, if_pos rfl, Json.int.injEq] at hvalue
  exact Int.ofNat.inj hvalue

/-- Comparisons of one shape have operands that are alike. -/
theorem alike_of_shape {c c' : Comparison} (hshape : c.shape = c'.shape) {attr : Attribute}
    {o o' : Operand} (ho : ofComparison c attr = .ok o) (ho' : ofComparison c' attr = .ok o') :
    o.Alike o' := by
  obtain ⟨_, _, hoperator, hfunction, hcount⟩ := eq_of_shape hshape
  cases hf : c.function with
  | none =>
      have hread := readFor_of_ofComparison hf ho
      have hread' := readFor_of_ofComparison (hfunction ▸ hf) ho'
      rw [← hoperator] at hread'
      refine alike_of_readFor hread hread' fun hlist => hcount ?_
      simp [Comparison.takesMany, Comparison.valueOperator, valueOperator, hf, hlist]
  | some f =>
      have hf' : c'.function = some f := hfunction ▸ hf
      by_cases hpredicate : c.operator = .predicate
      · have hpredicate' : c'.operator = .predicate := hoperator ▸ hpredicate
        simp only [ofComparison, hf, hf', hpredicate, hpredicate', if_true] at ho ho'
        cases ho
        cases ho'
        exact ⟨rfl, Iff.rfl⟩
      · have hpredicate' : c'.operator ≠ .predicate := hoperator ▸ hpredicate
        cases hcompare : f.compare with
        | none =>
            simp only [ofComparison, hf, hf', hpredicate, hpredicate', if_false, hcompare] at ho ho'
            cases ho
            cases ho'
            refine ⟨?_, by simp [arguments_ne_bounds]⟩
            rw [length_values_arguments, length_values_arguments]
            exact hcount (by simp [Comparison.takesMany, hf, hcompare])
        | some op =>
            refine alike_of_readFor (readFor_of_compared hf hcompare hpredicate ho)
              (readFor_of_compared hf' hcompare hpredicate' ho') fun hlist => hcount ?_
            simp [Comparison.takesMany, Comparison.valueOperator, valueOperator, hf, hcompare,
              hlist]

end Operand

namespace Sql

theorem Expr.blankAll_eq_map (es : List Expr) : Expr.blankAll es = es.map Expr.blank := by
  induction es with
  | nil => rfl
  | cons e es ih =>
      rw [blankAll, ih]
      rfl

/-- Blanking goes through a chain of expressions. -/
theorem Expr.blank_foldl (link : Expr → Expr → Expr)
    (hlink : ∀ e e', (link e e').blank = link e.blank e'.blank) (e : Expr) (es : List Expr) :
    (es.foldl link e).blank = (es.map Expr.blank).foldl link e.blank := by
  induction es generalizing e with
  | nil => rfl
  | cons e' es ih => rw [List.foldl_cons, ih, hlink, List.map_cons, List.foldl_cons]

theorem Expr.blank_all (es : List Expr) : (Expr.all es).blank = .all (es.map Expr.blank) := by
  cases es with
  | nil => rfl
  | cons e es => exact Expr.blank_foldl .and (fun _ _ => by rw [Expr.blank]) e es

theorem Expr.blank_any (es : List Expr) : (Expr.any es).blank = .any (es.map Expr.blank) := by
  cases es with
  | nil => rfl
  | cons e es => exact Expr.blank_foldl .or (fun _ _ => by rw [Expr.blank]) e es

theorem Expr.blank_negateIf (negated : Bool) (e : Expr) :
    (Expr.negateIf negated e).blank = .negateIf negated e.blank := by
  cases negated <;> rfl

/-- A test with as many operands is blanked to the same expression. -/
theorem blank_documentTest_congr (e : Expr) {items items' : List Scalar}
    (hlength : items.length = items'.length) :
    (documentTest e items).blank = (documentTest e items').blank := by
  have harguments : ∀ items : List Scalar,
      Expr.blankAll (items.flatMap fun item => [e, Expr.scalar item]) =
        (List.replicate items.length [e.blank, Expr.value blankValue]).flatten := by
    intro items
    rw [Expr.blankAll_eq_map, List.map_flatMap, List.flatMap_def, ← List.map_const']
    rfl
  rw [documentTest, documentTest, Expr.blank, Expr.blank, harguments, harguments,
    List.map_const', List.map_const', hlength]

namespace Target

variable {t : Target}

/-- Tests of operands that are alike are the same once blanked. -/
theorem blank_test_congr (param : String) (op : Operator) (kind : Kind) (e : Expr)
    {o o' : Operand} (halike : o.Alike o') :
    Expr.blank <$> t.test param op kind e o = Expr.blank <$> t.test param op kind e o' := by
  have hlength := halike.length
  cases op
  case range =>
    by_cases hbounds : ∃ low high, o = .bounds low high
    · obtain ⟨low', high', rfl⟩ := halike.bounds.1 hbounds
      obtain ⟨low, high, rfl⟩ := hbounds
      rfl
    · -- Without two bounds both are refused, with an error that does not show the operand.
      have hbounds' := mt halike.bounds.2 hbounds
      cases o with
      | bounds low high => exact absurd ⟨low, high, rfl⟩ hbounds
      | _ =>
          cases o' with
          | bounds low high => exact absurd ⟨low, high, rfl⟩ hbounds'
          | _ => rfl
  case among =>
    simp only [test, Functor.map, Except.map, Expr.blank, List.map_const', List.length_map, hlength]
  case startsWith | endsWith =>
    unfold test affixTest
    cases t.dialect with
    | postgres => simp only [Functor.map, Except.map, Expr.blank]
    | mysql | sqlite => simp only [Functor.map, Except.map, Expr.blank, Expr.blankAll, Expr.scalar]
  case search =>
    unfold test searchTest
    cases t.dialect with
    | postgres | mysql =>
        simp only [Functor.map, Except.map, Expr.blank, Expr.blankAll, Expr.scalar]
    | sqlite => rfl
  case contains =>
    unfold test
    cases t.dialect with
    | mysql | sqlite => rfl
    | postgres =>
        by_cases hkind : kind = .collection
        · simp only [postgresTest?, hkind, if_true, arrayTest, Functor.map, Except.map, Expr.blank,
            Expr.blankAll]
        · simp only [postgresTest?, hkind, if_false, Functor.map, Except.map,
            blank_documentTest_congr e hlength]
  case overlap | hasAll | hasAny | hasKey =>
    unfold test
    cases t.dialect with
    | mysql | sqlite => rfl
    | postgres =>
        simp only [postgresTest?, arrayTest, Functor.map, Except.map, Expr.blank, Expr.blankAll,
          Expr.scalar]
  case iexact | icontains | istartsWith | iendsWith | exact | gt | gte | lt | lte | year | month |
      day =>
    simp only [test, equals, upperOf, Functor.map, Except.map, Expr.blank]
  case isNull | isNotNull => rfl
  all_goals
    unfold test
    cases t.dialect <;> rfl

/-- A test of an operand that is alike may also be negated. -/
theorem blank_negated_test_congr (param : String) (op : Operator) (kind : Kind) (e : Expr)
    (negated : Bool) {o o' : Operand} (halike : o.Alike o') :
    Expr.blank <$> (do return .negateIf negated (← t.test param op kind e o) : Result Expr) =
      Expr.blank <$> (do return .negateIf negated (← t.test param op kind e o') : Result Expr) := by
  apply Result.map_bind_congr (blank_test_congr param op kind e halike)
  intro test test' htest
  show Except.ok _ = Except.ok _
  rw [Expr.blank_negateIf, Expr.blank_negateIf, htest]

/-- A call with as many arguments is the same once blanked. -/
theorem blank_call_congr (param name : String) (e : Expr) {o o' : Operand}
    (hlength : o.values.length = o'.values.length) :
    Expr.blank <$> t.call param name (e :: o.values.map .scalar) =
      Expr.blank <$> t.call param name (e :: o'.values.map .scalar) := by
  have harguments : ∀ o : Operand, Expr.blankAll (e :: o.values.map Expr.scalar) =
      e.blank :: List.replicate o.values.length (.value blankValue) := by
    intro o
    rw [Expr.blankAll, Expr.blankAll_eq_map, List.map_map, ← List.map_const']
    rfl
  unfold call
  by_cases hallowed : t.functions.contains (Text.lowerAscii name) = true
  · simp only [hallowed, if_true, Functor.map, Except.map, Expr.blank, harguments, hlength]
  · simp only [hallowed]
    rfl

/-- The conditions of comparisons of one shape are the same once blanked. -/
theorem blank_comparison_congr (stem : String) {c c' : Comparison} (hshape : c.shape = c'.shape)
    (hvalid : c.validate t.registry t.resource = .ok ())
    (hvalid' : c'.validate t.registry t.resource = .ok ()) :
    Expr.blank <$> t.comparison stem c = Expr.blank <$> t.comparison stem c' := by
  obtain ⟨located, o, hlocate, _, ho⟩ := Comparison.validate_eq_ok hvalid
  obtain ⟨located', o', hlocate', _, ho'⟩ := Comparison.validate_eq_ok hvalid'
  obtain ⟨hparam, hpath, hoperator, hfunction, _⟩ := Operand.eq_of_shape hshape
  rw [← hparam, ← hpath, hlocate] at hlocate'
  cases hlocate'
  have halike := Operand.alike_of_shape hshape ho ho'
  have hvalue : c.valueOperator = c'.valueOperator := by
    rw [Comparison.valueOperator, Comparison.valueOperator, hoperator, hfunction]
  rw [comparison_eq hlocate ho, comparison_eq (hparam ▸ hpath ▸ hlocate) ho', ← hparam]
  apply Result.map_bind_congr_right
  intro column
  unfold conditionOf
  rw [← hparam, ← hoperator, ← hfunction, ← hvalue]
  cases c.function with
  | none => exact blank_negated_test_congr _ _ _ column _ halike
  | some f =>
      apply Result.map_bind_congr_right
      intro e
      cases f.predicate? with
      | some name => exact blank_call_congr c.param name e halike.length
      | none => exact blank_negated_test_congr _ _ _ e _ halike

/-- The conditions of filters of one shape are the same once blanked. -/
theorem blank_condition_congr (stem : String) {f f' : Filter} (hshape : f.shape = f'.shape)
    (hvalid : ∀ leaf ∈ f.leaves, leaf.validateLeaf t.registry t.resource = .ok ())
    (hvalid' : ∀ leaf ∈ f'.leaves, leaf.validateLeaf t.registry t.resource = .ok ()) :
    Expr.blank <$> t.condition stem f = Expr.blank <$> t.condition stem f' := by
  induction f generalizing f' with
  | comparison c =>
      cases f' with
      | comparison c' =>
          rw [Filter.shape, Filter.shape, Filter.comparison.injEq] at hshape
          rw [condition, condition]
          exact blank_comparison_congr stem hshape
            (hvalid (.comparison c) (by simp [Filter.leaves]))
            (hvalid' (.comparison c') (by simp [Filter.leaves]))
      | fullText f' => cases hshape
      | node connective' children' => cases hshape
  | fullText f =>
      cases f' with
      | comparison c' => cases hshape
      | fullText f' =>
          cases hshape
          rfl
      | node connective' children' => cases hshape
  | node connective children ih =>
      cases f' with
      | comparison c' => cases hshape
      | fullText f' => cases hshape
      | node connective' children' =>
          rw [Filter.shape, Filter.shape, Filter.node.injEq, Filter.shapes_eq_map,
            Filter.shapes_eq_map] at hshape
          obtain ⟨rfl, hchildren⟩ := hshape
          rw [Filter.leaves_node] at hvalid hvalid'
          have hparts := Result.map_mapM_congr hchildren fun child hchild child' hchild' hlook =>
            ih child hchild hlook
              (fun leaf hleaf => hvalid leaf (List.mem_flatMap.2 ⟨child, hchild, hleaf⟩))
              (fun leaf hleaf => hvalid' leaf (List.mem_flatMap.2 ⟨child', hchild', hleaf⟩))
          rw [condition, condition, conditions_eq_mapM, conditions_eq_mapM]
          apply Result.map_bind_congr hparts
          intro parts parts' hblank
          show Except.ok _ = Except.ok _
          cases connective with
          | and => rw [Expr.blank_all, Expr.blank_all, hblank]
          | or => rw [Expr.blank_any, Expr.blank_any, hblank]
          | not => simp only [Expr.blank, Expr.blank_all, hblank]

/-- A selection with the same value in all places. -/
def blankSelection (s : Selection) : Selection := { s with restriction := s.restriction.blank }

/-- The selections of filters of one shape are the same once blanked. -/
theorem blank_selection_congr {filter filter' : Option Filter}
    (hshape : filter.map Filter.shape = filter'.map Filter.shape)
    (hvalid : ∀ f ∈ filter, ∀ leaf ∈ f.leaves, leaf.validateLeaf t.registry t.resource = .ok ())
    (hvalid' : ∀ f ∈ filter', ∀ leaf ∈ f.leaves,
      leaf.validateLeaf t.registry t.resource = .ok ()) :
    blankSelection <$> t.selection filter = blankSelection <$> t.selection filter' := by
  cases filter with
  | none =>
      cases filter' with
      | none => rfl
      | some f' => cases hshape
  | some f =>
      cases filter' with
      | none => cases hshape
      | some f' =>
          have hff' : f.shape = f'.shape := Option.some.inj hshape
          have hcondition :
              Option.map Expr.blank <$> (some f).mapM (t.condition Joins.defaultStem) =
                Option.map Expr.blank <$> (some f').mapM (t.condition Joins.defaultStem) := by
            refine Result.map_bind_congr (blank_condition_congr Joins.defaultStem hff'
              (hvalid f rfl) (hvalid' f' rfl)) fun e e' hblank => ?_
            show Except.ok (some e.blank) = Except.ok (some e'.blank)
            rw [hblank]
          apply Result.map_bind_congr hcondition
          intro condition condition' hblank
          show Except.map _ _ = Except.map _ _
          simp only [Option.map_some, Option.getD_some, Filter.paths_congr hff']
          split
          · show Except.ok _ = Except.ok _
            simp only [blankSelection, Restriction.blank, hblank]
          · show Except.ok _ = Except.ok _
            cases condition with
            | none =>
                cases condition' with
                | none => rfl
                | some e' => cases hblank
            | some e =>
                cases condition' with
                | none => cases hblank
                | some e' =>
                    simp only [blankSelection, Restriction.blank, Option.some.inj hblank]

/-- Blanking goes through the statement of totals. -/
theorem blank_totalsStatement (grouped : Select) (dimensions metrics : List Labelled)
    (limit : Option Nat) :
    (totalsStatement grouped dimensions metrics limit).blank =
      totalsStatement grouped.blank dimensions metrics limit := by
  unfold totalsStatement
  cases limit with
  | none => rfl
  | some n => cases dimensions.getLast? <;> rfl

/-- Totals with the same value in all places. -/
def blankTotals (totals : TotalsQuery) : TotalsQuery :=
  { totals with statement := totals.statement.blank }

/-- The totals of a blanked selection are the blanked totals. -/
theorem blank_totals (s : Selection) (a : Aggregate) :
    Option.map blankTotals <$> t.totals s a = t.totals (blankSelection s) a := by
  unfold totals
  split
  · rfl
  · cases a.groupBy.mapM t.dimension with
    | error e => rfl
    | ok dimensions =>
        cases a.metrics.mapM t.metricArgument with
        | error e => rfl
        | ok arguments =>
            show Except.ok (some _) = Except.ok (some _)
            simp only [blankTotals, blank_totalsStatement]
            rfl

/-- Optional values that look alike in one way do so in any coarser way. -/
theorem map_congr_of_coarser {α γ δ : Type} {u : α → γ} {v : α → δ}
    (hcoarser : ∀ a a', u a = u a' → v a = v a') {o o' : Option α} (ho : o.map u = o'.map u) :
    o.map v = o'.map v := by
  cases o with
  | none =>
      cases o' with
      | none => rfl
      | some a' => cases ho
  | some a =>
      cases o' with
      | none => cases ho
      | some a' => exact congrArg some (hcoarser a a' (Option.some.inj ho))

/-- What is sent for a query depends only on its blanked statements. -/
theorem shapes_congr {q q' : Query} (hdialect : q.dialect = q'.dialect)
    (hpage : q.page.blank = q'.page.blank)
    (hcount : q.count.map Select.blank = q'.count.map Select.blank)
    (htotals : q.totals.map blankTotals = q'.totals.map blankTotals) : q.shapes = q'.shapes := by
  have hselect : ∀ s s' : Select, s.blank = s'.blank →
      ((Statement.select s).prepare q.dialect).shape =
        ((Statement.select s').prepare q.dialect).shape :=
    fun s s' hs => Statement.shape_prepare_congr q.dialect (congrArg Statement.select hs)
  have hstatement : ∀ s s' : TotalsQuery, blankTotals s = blankTotals s' →
      (s.statement.prepare q.dialect).shape = (s'.statement.prepare q.dialect).shape :=
    fun s s' hs => Statement.shape_prepare_congr q.dialect (congrArg TotalsQuery.statement hs)
  rw [Query.shapes, Query.shapes, ← hdialect, hselect _ _ hpage,
    map_congr_of_coarser hselect hcount, map_congr_of_coarser hstatement htotals]

/-- Two valid requests that differ only in the operands of their comparisons are compiled to the
same texts with the same numbers of values, or are refused with the same error. -/
theorem shapes_compile_congr {request request' : Request} (hshape : request.shape = request'.shape)
    (hvalid : request.validate t.registry t.resource = .ok ())
    (hvalid' : request'.validate t.registry t.resource = .ok ()) :
    Query.shapes <$> t.compile request = Query.shapes <$> t.compile request' := by
  have hleaves := (Request.isValid_of_validate hvalid).leaves
  have hleaves' := (Request.isValid_of_validate hvalid').leaves
  obtain ⟨filter, order, paging, aggregate, fetch⟩ := request
  obtain ⟨filter', order', paging', aggregate', fetch'⟩ := request'
  rw [Request.shape, Request.shape, Request.mk.injEq] at hshape
  obtain ⟨hfilter, rfl, rfl, rfl, rfl⟩ := hshape
  apply Result.map_bind_congr (blank_selection_congr hfilter hleaves hleaves')
  intro s s' hs
  apply Result.map_bind_congr_right
  intro terms
  have htotals : Option.map blankTotals <$> t.totals s aggregate =
      Option.map blankTotals <$> t.totals s' aggregate := by
    rw [blank_totals, blank_totals, hs]
  apply Result.map_bind_congr htotals
  intro totals totals' hblank
  apply Result.map_bind_congr_right
  intro eager
  have hpage : t.page (blankSelection s) ⟨filter, order, paging, aggregate, fetch⟩ terms =
      t.page (blankSelection s') ⟨filter', order, paging, aggregate, fetch⟩ terms := by
    rw [hs]
    rfl
  have hcount : t.count (blankSelection s) = t.count (blankSelection s') := by rw [hs]
  refine congrArg Except.ok (shapes_congr rfl hpage ?_ hblank)
  cases paging.wantTotal with
  | false => rfl
  | true => exact congrArg some hcount

/-- Books with a title, in a relational store. -/
def books : Target where
  dialect := .postgres
  functions := []
  registry := {}
  resource := {
    name := "book"
    storage := "books"
    attributes := [{ name := "title", kind := .string }] }

/-- Books with one of two titles, and how many there are. -/
def titled (first second : String) : Request where
  filter := some (.comparison {
    param := "title__in"
    path := ⟨[], "title"⟩
    operator := .among
    function := none
    value := .array [.string first, .string second] })
  paging := { wantTotal := true }

/-- A title that tries to end the statement is bound like any other. -/
theorem shapes_compile_titled :
    Query.shapes <$> books.compile (titled "'; DROP TABLE books; --" "$3") =
      .ok (("SELECT \"books\".* FROM \"books\" WHERE \"books\".\"title\" IN ($1, $2) " ++
          "ORDER BY \"books\".\"id\" ASC", 2),
        some ("SELECT COUNT(*) AS \"total\" FROM \"books\" " ++
          "WHERE \"books\".\"title\" IN ($1, $2)", 2), none) := by
  have hshape : (titled "'; DROP TABLE books; --" "$3").shape = (titled "Emma" "Ulysses").shape :=
    rfl
  rw [shapes_compile_congr (t := books) hshape rfl rfl]
  rfl

end Target
end Sql
end Listing

/-
# The bounds of a range

A range is given by two bounds, in any order: integers, texts, days, moments and UUIDs have a total
order in which only equal values are level, so the smaller of the two bounds is the lower one
whichever came first. Wherever in a filter a range stands, what a store is asked therefore does not
depend on the order in which the bounds were given, and asks for what lies between the smaller and
the greater one.

Bounds that are doubles, or of two types, are not covered: two zeros differ and are level.
-/
import Listing.Proofs.FilterContext
import Listing.Proofs.TypedValues
import Mathlib.Data.Prod.Lex
import Mathlib.Data.String.Basic

namespace Listing

/-! ### The order of typed values -/

/-- Year, month and day, the year first. -/
def Date.place (d : Date) : ℤ ×ₗ ℕ ×ₗ ℕ := toLex (d.year, toLex (d.month, d.day))

/-- The day, and then the parts of the clock from the hour on. -/
def DateTime.place (t : DateTime) : (ℤ ×ₗ ℕ ×ₗ ℕ) ×ₗ ℕ ×ₗ ℕ ×ₗ ℕ ×ₗ ℕ :=
  toLex (t.date.place, toLex (t.hour, toLex (t.minute, toLex (t.second, t.nanosecond))))

theorem Date.compare_eq (a b : Date) : a.compare b = Ord.compare a.place b.place := by
  simp only [compare, place, Prod.Lex.compare_def, compareLex, compareOn, ofLex_toLex]

theorem Date.place_injective : Function.Injective Date.place := by
  rintro ⟨_, _, _⟩ ⟨_, _, _⟩ hplace
  simp only [place, EmbeddingLike.apply_eq_iff_eq, Prod.mk.injEq] at hplace
  simp [hplace]

theorem DateTime.compare_eq (a b : DateTime) : a.compare b = Ord.compare a.place b.place := by
  simp only [compare, place, Date.compare_eq, Prod.Lex.compare_def, compareLex, compareOn,
    ofLex_toLex]

theorem DateTime.place_injective : Function.Injective DateTime.place := by
  rintro ⟨_, _, _, _, _⟩ ⟨_, _, _, _, _⟩ hplace
  simp only [place, EmbeddingLike.apply_eq_iff_eq, Prod.mk.injEq] at hplace
  simp [hplace, Date.place_injective hplace.1]

namespace Scalar

/-- Two values of a type in which only equal values are level. -/
inductive SameType : Scalar → Scalar → Prop
  | int (a b : Int) : SameType (.int a) (.int b)
  | text (a b : String) : SameType (.text a) (.text b)
  | date (a b : Date) : SameType (.date a) (.date b)
  | dateTime (a b : DateTime) : SameType (.dateTime a) (.dateTime b)
  | uuid (a b : Uuid) : SameType (.uuid a) (.uuid b)

/-- Two values of one type, the second of which is no smaller: integers by size, texts character by
character, days and moments in time, UUIDs as numbers. -/
inductive Ascending : Scalar → Scalar → Prop
  | int {a b : Int} (holds : a ≤ b) : Ascending (.int a) (.int b)
  | text {a b : String} (holds : a ≤ b) : Ascending (.text a) (.text b)
  | date {a b : Date} (holds : a.place ≤ b.place) : Ascending (.date a) (.date b)
  | dateTime {a b : DateTime} (holds : a.place ≤ b.place) : Ascending (.dateTime a) (.dateTime b)
  | uuid {a b : Uuid} (holds : a.value ≤ b.value) : Ascending (.uuid a) (.uuid b)

variable {a b : Scalar}

theorem SameType.symm (hsame : SameType a b) : SameType b a := by
  cases hsame <;> constructor

/-- Values of one type are in order, one way or the other. -/
theorem SameType.total (hsame : SameType a b) : Ascending a b ∨ Ascending b a := by
  cases hsame with
  | int a b => exact (le_total a b).imp .int .int
  | text a b => exact (le_total a b).imp .text .text
  | date a b => exact (le_total a.place b.place).imp .date .date
  | dateTime a b => exact (le_total a.place b.place).imp .dateTime .dateTime
  | uuid a b => exact (Nat.le_total a.value.toNat b.value.toNat).imp .uuid .uuid

/-- Only equal values are in order both ways. -/
theorem Ascending.antisymm (hab : Ascending a b) (hba : Ascending b a) : a = b := by
  cases hab with
  | int hab =>
      cases hba with
      | int hba => rw [le_antisymm hab hba]
  | text hab =>
      cases hba with
      | text hba => rw [le_antisymm hab hba]
  | date hab =>
      cases hba with
      | date hba => rw [Date.place_injective (le_antisymm hab hba)]
  | dateTime hab =>
      cases hba with
      | dateTime hba => rw [DateTime.place_injective (le_antisymm hab hba)]
  | @uuid a b hab =>
      cases hba with
      | uuid hba =>
          obtain ⟨a⟩ := a
          obtain ⟨b⟩ := b
          exact congrArg (fun value => Scalar.uuid ⟨value⟩) (BitVec.le_antisymm hab hba)

/-- The comparison of values of one type finds the first one greater exactly if they are not in
order. -/
theorem SameType.compare?_eq_gt (hsame : SameType a b) :
    a.compare? b = some .gt ↔ ¬ Ascending a b := by
  have hle {α : Type} [LinearOrder α] (x y : α) : some (Ord.compare x y) = some .gt ↔ ¬ x ≤ y := by
    rw [Option.some.injEq, compare_gt_iff_gt, not_le]
  cases hsame with
  | int a b => exact (hle a b).trans (not_congr ⟨.int, fun | .int h => h⟩)
  | text a b => exact (hle a b).trans (not_congr ⟨.text, fun | .text h => h⟩)
  | date a b =>
      rw [compare?, Date.compare_eq]
      exact (hle a.place b.place).trans (not_congr ⟨.date, fun | .date h => h⟩)
  | dateTime a b =>
      rw [compare?, DateTime.compare_eq]
      exact (hle a.place b.place).trans (not_congr ⟨.dateTime, fun | .dateTime h => h⟩)
  | uuid a b =>
      exact (hle a.value.toNat b.value.toNat).trans (not_congr ⟨.uuid, fun | .uuid h => h⟩)

end Scalar

namespace Operand

variable {a b : Scalar}

/-- Two bounds of one type become the lower and the upper one. -/
theorem between_eq (hsame : a.SameType b) : ∃ low high,
    between a b = .bounds low high ∧ low.Ascending high ∧
      (low = a ∧ high = b ∨ low = b ∧ high = a) := by
  unfold between
  by_cases hab : a.Ascending b
  · rw [if_neg fun hgt => hsame.compare?_eq_gt.1 hgt hab]
    exact ⟨a, b, rfl, hab, .inl ⟨rfl, rfl⟩⟩
  · rw [if_pos (hsame.compare?_eq_gt.2 hab)]
    exact ⟨b, a, rfl, hsame.total.resolve_left hab, .inr ⟨rfl, rfl⟩⟩

/-- Two values have one lower and one upper of them. -/
theorem between_comm (hsame : a.SameType b) : between a b = between b a := by
  obtain ⟨low, high, hbetween, hascending, hbounds⟩ := between_eq hsame
  obtain ⟨low', high', hbetween', hascending', hbounds'⟩ := between_eq hsame.symm
  have hdistinct : ∀ {x y : Scalar}, x.Ascending y → y.Ascending x → x = y :=
    Scalar.Ascending.antisymm
  rw [hbetween, hbetween']
  rcases hbounds with ⟨rfl, rfl⟩ | ⟨rfl, rfl⟩ <;> rcases hbounds' with ⟨rfl, rfl⟩ | ⟨rfl, rfl⟩
  · rw [hascending.antisymm hascending']
  · rfl
  · rfl
  · rw [hascending.antisymm hascending']

end Operand

/-! ### A range in a filter -/

namespace Comparison

/-- The comparison is a range: by its operator, or by the one after its chain of functions. -/
def IsRange (c : Comparison) : Prop :=
  match c.function with
  | none => c.operator.positive = .range
  | some f => c.operator = .function ∧ ∃ op, f.compare = some op ∧ op.positive = .range

/-- The kind that a bound is read for: that of the attribute, unless a chain of functions is applied
to it. -/
def boundKind (c : Comparison) (attr : Attribute) : Kind :=
  if c.function.isNone then attr.kind else .scalar

/-- The comparison with two bounds in this order. -/
def withBounds (c : Comparison) (x y : Json) : Comparison := { c with value := .array [x, y] }

variable {c : Comparison} {attr : Attribute} {x y : Json} {a b : Scalar}

/-- The operand of a range with two bounds. -/
theorem ofComparison_withBounds (hrange : c.IsRange)
    (hx : Scalar.read (c.boundKind attr) x = .ok a) (hy : Scalar.read (c.boundKind attr) y = .ok b) :
    Operand.ofComparison (c.withBounds x y) attr = .ok (.between a b) := by
  have hread : ∀ {op : Operator} {kind elementKind : Kind}, op.positive = .range →
      Scalar.read kind x = .ok a → Scalar.read kind y = .ok b →
      Operand.readFor op kind elementKind (.array [x, y]) = .ok (.between a b) :=
    fun hop hx hy => by
      rw [Operand.readFor, Operator.arity_range hop]
      show (Scalar.read _ x >>= fun low => Scalar.read _ y >>= fun high => _) = _
      rw [hx, hy]
      rfl
  unfold IsRange at hrange
  unfold boundKind at hx hy
  unfold Operand.ofComparison withBounds
  dsimp only
  cases hfunction : c.function with
  | none =>
      simp only [hfunction, Option.isNone_none, if_true] at hrange hx hy
      rw [hread hrange hx hy]
  | some f =>
      simp only [hfunction, Option.isNone_some, Bool.false_eq_true, if_false] at hrange hx hy
      obtain ⟨hoperator, op, hcompare, hop⟩ := hrange
      simp only [hoperator, hcompare, reduceCtorEq, if_false]
      rw [hread hop hx hy]

/-- The bounds of a range may be exchanged. -/
theorem interchangeable_withBounds {registry : Registry} {resource : Resource} {located : Located}
    (hrange : c.IsRange) (hlocate : registry.locate resource c.param c.path = .ok located)
    (hx : Scalar.read (c.boundKind located.attr) x = .ok a)
    (hy : Scalar.read (c.boundKind located.attr) y = .ok b) (hsame : a.SameType b) :
    (c.withBounds x y).Interchangeable registry resource (c.withBounds y x) where
  same := rfl
  operand found hfound := by
    have hfound : registry.locate resource c.param c.path = .ok found := hfound
    rw [hlocate] at hfound
    cases hfound
    rw [ofComparison_withBounds hrange hx hy, ofComparison_withBounds hrange hy hx,
      Operand.between_comm hsame]

/-- The functions that a range is applied to, the innermost first. -/
def transforms (c : Comparison) : List String := c.function.elim [] (·.transforms)

end Comparison

/-- What a store makes of a range: the value of the attribute, or what the functions compute of it,
lies between a lower and an upper bound. The search index has no functions. -/
def Backend.AsksBetween (backend : Backend) (registry : Registry) (resource : Resource)
    (c : Comparison) (located : Located) (low high : Scalar) : Prop :=
  match backend with
  | .relational dialect functions =>
    let t : Sql.Target := { dialect, functions, registry, resource }
    ∀ stem, t.comparison stem c = do
      let column ← t.columnOf stem c.param located
      let e ← c.transforms.foldlM (fun e name => t.call c.param name [e]) column
      return .negateIf c.valueOperator.isNegated (.between e (.scalar low) (.scalar high))
  | .document functions =>
    let t : Document.Target := { functions, registry, resource }
    ∀ stem, t.comparison stem c = match c.function with
      | none => .ok (.negateIf c.operator.isNegated
          (.field (Document.fieldOf stem located) (.between low.toJson high.toJson)))
      | some f => do
        let e ← f.transforms.foldlM (fun e name => t.call c.param name [e])
          (.field (Document.fieldOf stem located))
        return .negateIf c.valueOperator.isNegated (.expr (.apply "$and"
          [Document.compareExpr .gte e low.toJson, Document.compareExpr .lte e high.toJson]))
  | .searchIndex =>
    let t : SearchIndex.Target := { registry, resource }
    t.comparison c = match c.function with
      | none => do
        let field ← t.field c.param c.path
        return {
          clause := .negateIf c.operator.isNegated
            (.range field.term [(.gte, low.toJson), (.lte, high.toJson)])
          lists := field.lists }
      | some _ => .error (SearchIndex.unsupported c.param (.operator c.operator))

section Stores

variable {registry : Registry} {resource : Resource} {c : Comparison} {located : Located}
  {low high : Scalar}

/-- After a chain of functions, the operator behind it is the range. -/
theorem Comparison.positive_valueOperator (hrange : c.IsRange) :
    c.valueOperator.positive = .range := by
  unfold IsRange at hrange
  unfold Comparison.valueOperator Listing.valueOperator
  cases hfunction : c.function with
  | none =>
      rw [hfunction] at hrange
      exact hrange
  | some f =>
      rw [hfunction] at hrange
      obtain ⟨-, op, hcompare, hop⟩ := hrange
      rw [Option.bind_some, hcompare]
      exact hop

/-- A chain that ends in a range is no predicate, and all of its functions are applied. -/
theorem Comparison.predicate?_of_isRange (hrange : c.IsRange) {f : FunctionChain}
    (hfunction : c.function = some f) : f.predicate? = none := by
  rw [IsRange, hfunction] at hrange
  obtain ⟨-, op, hcompare, -⟩ := hrange
  rw [FunctionChain.predicate?, hcompare]

theorem Sql.Target.comparison_of_bounds {t : Target} {stem : String} (hrange : c.IsRange)
    (hlocate : t.registry.locate t.resource c.param c.path = .ok located)
    (hoperand : Operand.ofComparison c located.attr = .ok (.bounds low high)) :
    t.comparison stem c = do
      let column ← t.columnOf stem c.param located
      let e ← c.transforms.foldlM (fun e name => t.call c.param name [e]) column
      return .negateIf c.valueOperator.isNegated (.between e (.scalar low) (.scalar high)) := by
  have htest : ∀ kind e, t.test c.param .range kind e (.bounds low high) =
      .ok (.between e (.scalar low) (.scalar high)) := fun _ _ => rfl
  have hop := Comparison.positive_valueOperator hrange
  rw [comparison_eq hlocate hoperand]
  refine bind_congr fun column => ?_
  unfold conditionOf Comparison.transforms
  cases hfunction : c.function with
  | none =>
      have hvalue : c.valueOperator = c.operator := by
        rw [Comparison.valueOperator, Listing.valueOperator, hfunction]
        rfl
      rw [hvalue] at hop ⊢
      simp only [hop, htest]
      rfl
  | some f =>
      simp only [hop, htest, Comparison.predicate?_of_isRange hrange hfunction]
      rfl

theorem Document.Target.comparison_of_bounds {t : Target} {stem : String} (hrange : c.IsRange)
    (hlocate : t.registry.locate t.resource c.param c.path = .ok located)
    (hoperand : Operand.ofComparison c located.attr = .ok (.bounds low high)) :
    t.comparison stem c = match c.function with
      | none => .ok (.negateIf c.operator.isNegated
          (.field (fieldOf stem located) (.between low.toJson high.toJson)))
      | some f => do
        let e ← f.transforms.foldlM (fun e name => t.call c.param name [e])
          (.field (fieldOf stem located))
        return .negateIf c.valueOperator.isNegated (.expr (.apply "$and"
          [compareExpr .gte e low.toJson, compareExpr .lte e high.toJson])) := by
  have hop := Comparison.positive_valueOperator hrange
  unfold comparison
  rw [hlocate]
  show (Operand.ofComparison c located.attr >>= fun operand => _) = _
  rw [hoperand]
  cases hfunction : c.function with
  | none =>
      rw [Comparison.IsRange, hfunction] at hrange
      show (fieldFilter c.param c.operator.positive _ _ _ >>= fun filter => _) = _
      rw [hrange]
      rfl
  | some f =>
      simp only [Comparison.predicate?_of_isRange hrange hfunction, hop]
      rfl

theorem SearchIndex.Target.comparison_of_bounds {t : Target} (hrange : c.IsRange)
    (hlocate : t.registry.locate t.resource c.param c.path = .ok located)
    (hoperand : Operand.ofComparison c located.attr = .ok (.bounds low high)) :
    t.comparison c = match c.function with
      | none => do
        let field ← t.field c.param c.path
        return {
          clause := .negateIf c.operator.isNegated
            (.range field.term [(.gte, low.toJson), (.lte, high.toJson)])
          lists := field.lists }
      | some _ => .error (unsupported c.param (.operator c.operator)) := by
  unfold comparison
  cases hfunction : c.function with
  | some f => rfl
  | none =>
      rw [Comparison.IsRange, hfunction] at hrange
      dsimp only
      cases hfield : t.field c.param c.path with
      | error error => rfl
      | ok field =>
          have hattr : Operand.ofComparison c field.attr = .ok (.bounds low high) := by
            rw [(field_eq_ok hlocate hfield).2, hoperand]
          show (Operand.ofComparison c field.attr >>= fun operand =>
            fieldClause c.param c.operator.positive field operand >>= fun clause => _) = _
          rw [hattr, hrange]
          rfl

/-- Every store asks for what lies between the bounds that are read. -/
theorem Backend.asksBetween_of_operand {backend : Backend}
    (hrange : c.IsRange) (hlocate : registry.locate resource c.param c.path = .ok located)
    (hoperand : Operand.ofComparison c located.attr = .ok (.bounds low high)) :
    backend.AsksBetween registry resource c located low high := by
  cases backend with
  | relational dialect functions =>
      exact fun stem => Sql.Target.comparison_of_bounds hrange hlocate hoperand
  | document functions =>
      exact fun stem => Document.Target.comparison_of_bounds hrange hlocate hoperand
  | searchIndex => exact SearchIndex.Target.comparison_of_bounds hrange hlocate hoperand

end Stores

/-- Wherever in the filter of a request a range stands, and whichever of its two bounds comes first,
the request compiles to the same query; and what the store is asked for lies between the two values
read, the smaller of them as the lower bound. -/
theorem Entry.compileRequest_exchange_bounds (e : Entry) (registry : Registry) (request : Request)
    (place : Filter.Context) {c : Comparison} {located : Located} {x y : Json} {a b : Scalar}
    (hrange : c.IsRange) (hlocate : registry.locate e.resource c.param c.path = .ok located)
    (hx : Scalar.read (c.boundKind located.attr) x = .ok a)
    (hy : Scalar.read (c.boundKind located.attr) y = .ok b) (hsame : a.SameType b) :
    e.compileRequest registry (request.withLeaf place (c.withBounds x y)) =
        e.compileRequest registry (request.withLeaf place (c.withBounds y x)) ∧
      ∃ low high, low.Ascending high ∧ (low = a ∧ high = b ∨ low = b ∧ high = a) ∧
        e.backend.AsksBetween registry e.resource (c.withBounds x y) located low high := by
  obtain ⟨low, high, hbetween, hascending, hbounds⟩ := Operand.between_eq hsame
  have hoperand := Comparison.ofComparison_withBounds hrange hx hy
  rw [hbetween] at hoperand
  exact ⟨e.compileRequest_withLeaf request place registry
      (Comparison.interchangeable_withBounds hrange hlocate hx hy hsame),
    low, high, hascending, hbounds, Backend.asksBetween_of_operand hrange hlocate hoperand⟩

namespace Orders

/-- Orders with the moment at which they were placed. -/
def resource : Resource where
  name := "order"
  storage := "orders"
  attributes := [{ name := "placed", kind := .dateTime }]

def entry : Entry := ⟨resource, .documentWith []⟩

def registry : Registry := { entries := [entry] }

/-- Orders that were placed neither before nor after some moments. -/
def placedOutside : Comparison where
  param := "placed__notrange"
  path := ⟨[], "placed"⟩
  operator := .notRange
  function := none
  value := .null

/-- The second of two alternatives below a negation. -/
def alternative : Filter.Context :=
  .node .not [] (.node .or [.comparison { placedOutside with operator := .isNull }] .here []) []

/-- The midnight of a day. -/
def midnight : DateTime := ⟨⟨2024, 5, 1⟩, 0, 0, 0, 0⟩

/-- Half past one of the same day. -/
def halfPastOne : DateTime := ⟨⟨2024, 5, 1⟩, 1, 30, 0, 0⟩

/-- A day stands for its midnight, so that half past eleven of the day before in a zone two hours
behind is the later bound, given first or last. -/
theorem compileRequest_exchange_bounds_moments :
    let given := placedOutside.withBounds (.string "2024-04-30T23:30:00-02:00")
      (.string "2024-05-01")
    let exchanged := placedOutside.withBounds (.string "2024-05-01")
      (.string "2024-04-30T23:30:00-02:00")
    let nothing : Request := {}
    entry.compileRequest registry (nothing.withLeaf alternative given) =
        entry.compileRequest registry (nothing.withLeaf alternative exchanged) ∧
      ∃ low high, low.Ascending high ∧
        (low = .dateTime halfPastOne ∧ high = .dateTime midnight ∨
          low = .dateTime midnight ∧ high = .dateTime halfPastOne) ∧
        entry.backend.AsksBetween registry resource given
          ⟨{ name := "placed", kind := .dateTime }, resource, []⟩ low high := by
  have hlocate : registry.locate resource placedOutside.param placedOutside.path =
      .ok ⟨{ name := "placed", kind := .dateTime }, resource, []⟩ := rfl
  have hread : ∀ {text : String} {t : DateTime}, Calendar.readDateTime? text = some t →
      Scalar.read .dateTime (.string text) = .ok (.dateTime t) := fun ht =>
    Scalar.read_string (by rw [Scalar.ofKind?, ht, Option.map_some])
  have hlate := hread (show Calendar.readDateTime? "2024-04-30T23:30:00-02:00" =
    some halfPastOne by decide +kernel)
  have hearly := hread (show Calendar.readDateTime? "2024-05-01" = some midnight by
    decide +kernel)
  exact Entry.compileRequest_exchange_bounds entry registry {} alternative rfl hlocate hlate hearly
    (.dateTime halfPastOne midnight)

end Orders
end Listing

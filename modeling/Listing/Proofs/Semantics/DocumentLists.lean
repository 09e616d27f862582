/-
# Document filters on lists

A path through a list leads to a value in every element of the list. A test of such a path is met
as soon as one of the values meets it; each bound of a range, and each item that a list should
hold, may be met by a value of its own, and to differ from a value means that none of the values
equals it. A filter under a conjunction is tested by itself, so that nothing makes two of them
speak of the same element.

Expressions are computed from whole lists; what they make of them is left to the store. How single
values are compared is the same as for documents without lists.
-/
import Listing.Proofs.Semantics.DocumentFilter

namespace Listing.Document

/-- The values that the paths of a document lead to, through all lists on the way. A value that an
element does not have is null. -/
abbrev Values := String → List Datum

/-- What a document store decides beyond the comparison of single values, for documents with
lists. -/
structure ListEngine extends Engine where
  computed : Values → Expr → Bool

namespace ListEngine

variable (engine : ListEngine)

/-- One of some values compares with a value in a given way. -/
def anyCompares (comparator : Comparator) (xs : List Datum) (v : Json) : Bool :=
  xs.any fun x => engine.compareWith comparator x v.datum

/-- What a test says of the values of a path. -/
def passes (xs : List Datum) : FieldTest → Bool
  | .compare .ne v => !engine.anyCompares .eq xs v
  | .compare comparator v => engine.anyCompares comparator xs v
  | .between low high => engine.anyCompares .gte xs low && engine.anyCompares .lte xs high
  | .among values => values.any (engine.anyCompares .eq xs)
  | .holdsAll values => values.all (engine.anyCompares .eq xs)
  | .regex pattern options => xs.any fun x => engine.regex x pattern options
  | .exists_ => xs.any (· != .null)
  | .is v => engine.anyCompares .eq xs v

mutual
/-- What a filter says of a document. -/
def holds (values : Values) : Filter → Bool
  | .field path test => engine.passes (values path) test
  | .and filters => (holdsEach values filters).all id
  | .or filters => (holdsEach values filters).any id
  | .nor filters => !(holdsEach values filters).any id
  | .expr e => engine.computed values e

/-- What several filters say of a document. -/
def holdsEach (values : Values) : List Filter → List Bool
  | [] => []
  | f :: fs => holds values f :: holdsEach values fs
end

variable {engine}

theorem holdsEach_eq_map (values : Values) (fs : List Filter) :
    engine.holdsEach values fs = fs.map (engine.holds values) := by
  induction fs with
  | nil => rfl
  | cons f fs ih =>
      rw [holdsEach, ih]
      rfl

/-- A conjunction holds if each of its filters does. -/
theorem holds_and (values : Values) (fs : List Filter) :
    engine.holds values (.and fs) = true ↔ ∀ f ∈ fs, engine.holds values f = true := by
  rw [holds, holdsEach_eq_map, List.all_map, List.all_eq_true]
  rfl

end ListEngine

/-- The document has a list under a field, whose elements have these values. -/
def Stores (values : Values) (field : String) (elements : List Values) : Prop :=
  ∀ path, values (field ++ "." ++ path) = elements.flatMap fun element => element path

mutual
/-- The same filter on what lies below a field. -/
def Filter.under (field : String) : Filter → Filter
  | .field path test => .field (field ++ "." ++ path) test
  | .and filters => .and (Filter.underEach field filters)
  | .or filters => .or (Filter.underEach field filters)
  | .nor filters => .nor (Filter.underEach field filters)
  | .expr e => .expr e

/-- The same filters on what lies below a field. -/
def Filter.underEach (field : String) : List Filter → List Filter
  | [] => []
  | f :: fs => Filter.under field f :: Filter.underEach field fs
end

mutual
/-- The filter computes nothing. -/
def Filter.isPlain : Filter → Bool
  | .field .. => true
  | .and filters | .or filters | .nor filters => Filter.arePlain filters
  | .expr _ => false

/-- None of the filters computes anything. -/
def Filter.arePlain : List Filter → Bool
  | [] => true
  | f :: fs => Filter.isPlain f && Filter.arePlain fs
end

namespace Filter

theorem underEach_eq_map (field : String) (fs : List Filter) :
    underEach field fs = fs.map (under field) := by
  induction fs with
  | nil => rfl
  | cons f fs ih => rw [underEach, ih, List.map_cons]

theorem arePlain_eq_all (fs : List Filter) : arePlain fs = fs.all isPlain := by
  induction fs with
  | nil => rfl
  | cons f fs ih => rw [arePlain, ih, List.all_cons]

theorem under_negateIf (field : String) (negated : Bool) (f : Filter) :
    (negateIf negated f).under field = negateIf negated (f.under field) := by
  cases negated <;> rfl

theorem isPlain_negateIf (negated : Bool) (f : Filter) :
    (negateIf negated f).isPlain = f.isPlain := by
  cases negated with
  | false => rfl
  | true => simp [negateIf, isPlain, arePlain]

theorem isPlain_all {fs : List Filter} (hplain : ∀ f ∈ fs, f.isPlain = true) :
    (Filter.all fs).isPlain = true := by
  unfold Filter.all
  split
  · exact hplain _ List.mem_cons_self
  · rw [isPlain, arePlain_eq_all, List.all_eq_true]
    exact hplain

theorem under_all (field : String) (fs : List Filter) :
    (Filter.all fs).under field = Filter.all (fs.map (under field)) := by
  match fs with
  | [] => rfl
  | [f] => rfl
  | f :: g :: fs => simp [Filter.all, under, underEach_eq_map]

end Filter

mutual
/-- On a list of one element a filter below the field says what it says of the element. -/
theorem ListEngine.holds_under {engine : ListEngine} {values element : Values} {field : String}
    (hstores : Stores values field [element]) : ∀ f : Filter, f.isPlain = true →
      engine.holds values (f.under field) = engine.holds element f
  | .field path test, _ => by
      rw [Filter.under, holds, holds, hstores path, List.flatMap_singleton]
  | .and filters, hplain => by
      rw [Filter.under, holds, holds, holdsEach_under hstores filters hplain]
  | .or filters, hplain => by
      rw [Filter.under, holds, holds, holdsEach_under hstores filters hplain]
  | .nor filters, hplain => by
      rw [Filter.under, holds, holds, holdsEach_under hstores filters hplain]
  | .expr e, hplain => by cases hplain

theorem ListEngine.holdsEach_under {engine : ListEngine} {values element : Values}
    {field : String} (hstores : Stores values field [element]) : ∀ fs : List Filter,
      Filter.arePlain fs = true →
        engine.holdsEach values (Filter.underEach field fs) = engine.holdsEach element fs
  | [], _ => rfl
  | f :: fs, hplain => by
      rw [Filter.arePlain, Bool.and_eq_true] at hplain
      rw [Filter.underEach, holdsEach, holdsEach, holds_under hstores f hplain.1,
        holdsEach_under hstores fs hplain.2]
end

/-- A test that is met by the values of a path as soon as one of them meets it. -/
def FieldTest.isPointwise : FieldTest → Bool
  | .compare .ne _ | .between .. | .holdsAll _ => false
  | _ => true

/-- A filter of one field that one of its values meets. -/
inductive Filter.IsPointwise : Filter → Prop
  | field (path : String) (test : FieldTest) (pointwise : test.isPointwise = true) :
      IsPointwise (.field path test)
  | or (filters : List Filter) (each : ∀ f ∈ filters, IsPointwise f) : IsPointwise (.or filters)

/-- It does not matter in which order two lists are searched. -/
theorem any_any_comm {α β : Type} (p : α → β → Bool) (xs : List α) (ys : List β) :
    (xs.any fun x => ys.any fun y => p x y) = ys.any fun y => xs.any fun x => p x y := by
  rw [Bool.eq_iff_iff]
  simp only [List.any_eq_true]
  constructor
  · rintro ⟨x, hx, y, hy, hxy⟩
    exact ⟨y, hy, x, hx, hxy⟩
  · rintro ⟨y, hy, x, hx, hxy⟩
    exact ⟨x, hx, y, hy, hxy⟩

/-- The values in the elements of a list meet a test if those in some element do. -/
theorem ListEngine.passes_flatMap {engine : ListEngine} {test : FieldTest}
    (htest : test.isPointwise = true) {elements : List Values} (path : String) :
    engine.passes (elements.flatMap fun element => element path) test =
      elements.any fun element => engine.passes (element path) test := by
  cases test with
  | compare comparator v =>
      cases comparator with
      | ne => cases htest
      | _ => simp only [passes, anyCompares, List.any_flatMap]
  | between low high => cases htest
  | holdsAll values => cases htest
  | among values =>
      have hcompares : engine.anyCompares .eq (elements.flatMap fun element => element path) =
          fun v => elements.any fun element => engine.anyCompares .eq (element path) v := by
        funext v
        simp only [anyCompares, List.any_flatMap]
      simp only [passes]
      rw [hcompares, any_any_comm]
  | regex pattern options => simp only [passes, List.any_flatMap]
  | exists_ => simp only [passes, List.any_flatMap]
  | is v => simp only [passes, anyCompares, List.any_flatMap]

/-- On a list a pointwise filter below the field says that some element satisfies it. -/
theorem ListEngine.holds_under_of_pointwise {engine : ListEngine} {values : Values}
    {elements : List Values} {field : String} (hstores : Stores values field elements) {f : Filter}
    (hpointwise : f.IsPointwise) :
    engine.holds values (f.under field) = elements.any fun element => engine.holds element f := by
  induction hpointwise with
  | field path test pointwise =>
      rw [Filter.under, holds, hstores path, passes_flatMap pointwise]
      rfl
  | or filters each ih =>
      have heach : filters.map (engine.holds values ∘ Filter.under field) =
          filters.map fun f => elements.any fun element => engine.holds element f :=
        List.map_congr_left ih
      simp only [Filter.under, holds, holdsEach_eq_map, Filter.underEach_eq_map, List.map_map]
      rw [heach, List.any_map]
      simp only [List.any_map]
      exact any_any_comm (fun f element => engine.holds element f) filters elements

end Listing.Document

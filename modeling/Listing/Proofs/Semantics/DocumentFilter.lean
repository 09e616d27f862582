/-
# The meaning of document filters

A filter holds of a document or not. A document gives the value under every path, null where there
is none. A comparison for order holds only between two values that have an order; equality is that
of values, and equality with null is also met by a missing field.

Regular expressions, computed values and tests of lists are left to an `Engine`, as are comparisons
for order of values that have none here.
-/
import Listing.Document.Filter
import Listing.Proofs.Semantics.Datum

namespace Listing.Document

/-- The values of a document by their paths. -/
abbrev Fields := String → Datum

/-- What a document store decides beyond the comparison of single values. -/
structure Engine where
  compare : Comparator → Datum → Datum → Bool
  holdsAll : Datum → List Datum → Bool
  regex : Datum → String → String → Bool
  expr : Fields → Expr → Bool

/-- The orders that a comparison accepts. -/
def Comparator.accepts : Comparator → Ordering → Bool
  | .eq => Ordering.isEq
  | .ne => Ordering.isNe
  | .gt => Ordering.isGT
  | .gte => Ordering.isGE
  | .lt => Ordering.isLT
  | .lte => Ordering.isLE

namespace Engine

variable (engine : Engine)

/-- What a comparison says of two values. -/
def compareWith (comparator : Comparator) (x y : Datum) : Bool :=
  match comparator with
  | .eq => x == y
  | .ne => x != y
  | comparator => match x.order? y with
    | some o => comparator.accepts o
    | none => engine.compare comparator x y

/-- What a test says of a value. -/
def passes (x : Datum) : FieldTest → Bool
  | .compare comparator v => engine.compareWith comparator x v.datum
  | .between low high =>
    engine.compareWith .gte x low.datum && engine.compareWith .lte x high.datum
  | .among values => values.any fun v => engine.compareWith .eq x v.datum
  | .holdsAll values => engine.holdsAll x (values.map Json.datum)
  | .regex pattern options => engine.regex x pattern options
  | .exists_ => x != .null
  | .is v => engine.compareWith .eq x v.datum

mutual
/-- What a filter says of a document. -/
def holds (fields : Fields) : Filter → Bool
  | .field path test => engine.passes (fields path) test
  | .and filters => (holdsEach fields filters).all id
  | .or filters => (holdsEach fields filters).any id
  | .nor filters => !(holdsEach fields filters).any id
  | .expr e => engine.expr fields e

/-- What several filters say of a document. -/
def holdsEach (fields : Fields) : List Filter → List Bool
  | [] => []
  | f :: fs => holds fields f :: holdsEach fields fs
end

theorem holdsEach_eq_map (fields : Fields) (fs : List Filter) :
    engine.holdsEach fields fs = fs.map (engine.holds fields) := by
  induction fs with
  | nil => rfl
  | cons f fs ih =>
      rw [holdsEach, ih]
      rfl

/-- A negation may be left out or put in front. -/
theorem holds_negateIf (fields : Fields) (negated : Bool) (f : Filter) :
    engine.holds fields (.negateIf negated f) = (negated != engine.holds fields f) := by
  cases negated with
  | false => simp [Filter.negateIf]
  | true => simp [Filter.negateIf, holds, holdsEach]

/-- Values of one kind are compared by their order. -/
theorem compareWith_of_holds {kind : Kind} {x y : Datum} {comparator : Comparator}
    (hne : comparator ≠ .ne) (hx : kind.Holds x) (hy : kind.Holds y) :
    engine.compareWith comparator x y = x.related comparator.accepts y := by
  obtain ⟨o, ho⟩ := hx.exists_order? hy
  cases comparator with
  | ne => exact absurd rfl hne
  | eq =>
      rw [compareWith, Comparator.accepts, hx.related_isEq hy]
      rfl
  | gt | gte | lt | lte =>
      rw [compareWith, Datum.related, ho]
      · rfl
      all_goals simp

end Engine
end Listing.Document

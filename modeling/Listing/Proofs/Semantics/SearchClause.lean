/-
# The meaning of search clauses

A clause holds of an indexed document or not. A document gives the value under every path, null
where there is none; a text that is cut into words for searching has its value in one piece under
the path of its keyword part. Every test of a value fails where there is none.

Word searches, patterns, scripts and lists of objects are left to an `Engine`, as are comparisons
for order of values that have none here.
-/
import Listing.Proofs.Semantics.Datum
import Listing.SearchIndex.Clause

namespace Listing.SearchIndex

/-- The values of an indexed document by their paths. -/
abbrev Fields := String → Datum

/-- What a search index decides beyond the comparison of single values. -/
structure Engine where
  compare : Bound → Datum → Datum → Bool
  /-- What a clause of a further sort says of a document. -/
  further : Fields → Clause → Bool
  /-- Whether one object of the list at a path satisfies a clause. -/
  nested : Fields → String → Clause → Bool

/-- The orders that a bound accepts. -/
def Bound.accepts : Bound → Ordering → Bool
  | .gt => Ordering.isGT
  | .gte => Ordering.isGE
  | .lt => Ordering.isLT
  | .lte => Ordering.isLE

namespace Engine

variable (engine : Engine)

/-- What a bound says of a value. -/
def bounded (x : Datum) (bound : Bound × Json) : Bool :=
  match x.order? bound.2.datum with
  | some o => bound.1.accepts o
  | none => engine.compare bound.1 x bound.2.datum

mutual
/-- What a clause says of a document. -/
def holds (fields : Fields) : Clause → Bool
  | .matchAll => true
  | .term field v => fields field != .null && fields field == v.datum
  | .terms field values => fields field != .null && values.any fun v => fields field == v.datum
  | .range field bounds => fields field != .null && bounds.all (engine.bounded (fields field))
  | .present field => fields field != .null
  | .all clauses => (holdsEach fields clauses).all id
  | .any clauses => (holdsEach fields clauses).any id
  | .none clauses => !(holdsEach fields clauses).any id
  | .unranked clause => holds fields clause
  | .nested path clause => engine.nested fields path clause
  | clause => engine.further fields clause

/-- What several clauses say of a document. -/
def holdsEach (fields : Fields) : List Clause → List Bool
  | [] => []
  | clause :: clauses => holds fields clause :: holdsEach fields clauses
end

theorem holdsEach_eq_map (fields : Fields) (clauses : List Clause) :
    engine.holdsEach fields clauses = clauses.map (engine.holds fields) := by
  induction clauses with
  | nil => rfl
  | cons clause clauses ih =>
      rw [holdsEach, ih]
      rfl

/-- All of some clauses hold, also where one stands by itself. -/
theorem holds_allOf (fields : Fields) (clauses : List Clause) :
    engine.holds fields (.allOf clauses) = (clauses.map (engine.holds fields)).all id := by
  match clauses with
  | [] => simp [Clause.allOf, holds, holdsEach]
  | [clause] => simp [Clause.allOf]
  | _ :: _ :: _ => rw [Clause.allOf, holds, holdsEach_eq_map]; simp

/-- One of some clauses holds, also where it stands by itself. -/
theorem holds_anyOf (fields : Fields) (clauses : List Clause) :
    engine.holds fields (.anyOf clauses) = (clauses.map (engine.holds fields)).any id := by
  match clauses with
  | [] => simp [Clause.anyOf, holds, holdsEach]
  | [clause] => simp [Clause.anyOf]
  | _ :: _ :: _ => rw [Clause.anyOf, holds, holdsEach_eq_map]; simp

/-- A negation may be left out or put in front. -/
theorem holds_negateIf (fields : Fields) (negated : Bool) (clause : Clause) :
    engine.holds fields (.negateIf negated clause) = (negated != engine.holds fields clause) := by
  cases negated with
  | false => simp [Clause.negateIf]
  | true => simp [Clause.negateIf, holds, holdsEach]

/-- A bound on a value of its kind is decided by their order. -/
theorem bounded_of_holds {kind : Kind} {x : Datum} {bound : Bound} {v : Json}
    (hx : kind.Holds x) (hv : kind.Holds v.datum) :
    engine.bounded x (bound, v) = x.related bound.accepts v.datum := by
  obtain ⟨o, ho⟩ := hx.exists_order? hv
  rw [bounded, Datum.related, ho]
  rfl

end Engine
end Listing.SearchIndex

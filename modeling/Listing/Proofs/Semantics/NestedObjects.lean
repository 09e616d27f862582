/-
# Lists of objects in an index

An index keeps every object of a list as a document of its own below the one that has the list. A
nested clause asks one of them at a time, and what it asks may be nested again, so that lists
inside of lists are walked by a chain of objects, each in a list of the one before it. What a
clause says of the values of one object is as for documents without lists.
-/
import Listing.Proofs.Semantics.SearchClause

namespace Listing.SearchIndex

/-- An index of documents and of the objects in their lists. -/
structure Index (α : Type) where
  engine : Engine
  /-- The values of an object by their paths; those of the objects in its lists are not its own. -/
  fields : α → Fields
  /-- The objects of the list at a path. -/
  objects : α → String → List α

namespace Index

variable {α : Type} (index : Index α)

mutual
/-- What a clause says of an object. -/
def holds (o : α) : Clause → Bool
  | .all clauses => (holdsEach o clauses).all id
  | .any clauses => (holdsEach o clauses).any id
  | .none clauses => !(holdsEach o clauses).any id
  | .unranked clause => holds o clause
  | .nested path clause => (index.objects o path).any fun inner => holds inner clause
  | clause => index.engine.holds (index.fields o) clause

/-- What several clauses say of an object. -/
def holdsEach (o : α) : List Clause → List Bool
  | [] => []
  | clause :: clauses => holds o clause :: holdsEach o clauses
end

/-- The objects at the end of lists, the first list in the given object and each further one in an
object of the list before it. Without lists it is the object itself. -/
def chains (o : α) : List String → List α
  | [] => [o]
  | path :: paths => (index.objects o path).flatMap fun inner => chains inner paths

theorem holdsEach_eq_map (o : α) (clauses : List Clause) :
    index.holdsEach o clauses = clauses.map (index.holds o) := by
  induction clauses with
  | nil => rfl
  | cons clause clauses ih =>
      rw [holdsEach, ih]
      rfl

/-- All of some clauses hold, also where one stands by itself. -/
theorem holds_allOf (o : α) (clauses : List Clause) :
    index.holds o (.allOf clauses) = clauses.all (index.holds o) := by
  match clauses with
  | [] => simp [Clause.allOf, holds, holdsEach]
  | [clause] => simp [Clause.allOf]
  | first :: second :: rest =>
      have hmany : Clause.allOf (first :: second :: rest) = .all (first :: second :: rest) := rfl
      rw [hmany, holds, holdsEach_eq_map, List.all_map]
      rfl

/-- One of some clauses holds, also where it stands by itself. -/
theorem holds_anyOf (o : α) (clauses : List Clause) :
    index.holds o (.anyOf clauses) = clauses.any (index.holds o) := by
  match clauses with
  | [] => simp [Clause.anyOf, holds, holdsEach]
  | [clause] => simp [Clause.anyOf]
  | first :: second :: rest =>
      have hmany : Clause.anyOf (first :: second :: rest) = .any (first :: second :: rest) := rfl
      rw [hmany, holds, holdsEach_eq_map, List.any_map]
      rfl

theorem holds_none (o : α) (clauses : List Clause) :
    index.holds o (.none clauses) = !clauses.any (index.holds o) := by
  rw [holds, holdsEach_eq_map, List.any_map]
  rfl

/-- A negation may be left out or put in front. -/
theorem holds_negateIf (o : α) (negated : Bool) (clause : Clause) :
    index.holds o (.negateIf negated clause) = (negated != index.holds o clause) := by
  cases negated with
  | false => simp [Clause.negateIf]
  | true => simp [Clause.negateIf, holds_none]

/-- A clause inside of lists is met by the object at the end of one chain. -/
theorem holds_inLists (o : α) (lists : List String) (clause : Clause) :
    index.holds o (.inLists lists clause)
      = (index.chains o lists).any (index.holds · clause) := by
  induction lists generalizing o with
  | nil => simp [Clause.inLists, chains]
  | cons path paths ih =>
      have hinner : Clause.inLists (path :: paths) clause
          = .nested path (.inLists paths clause) := rfl
      rw [hinner, holds, chains, List.any_flatMap]
      exact congrArg (index.objects o path).any (funext fun inner => ih inner)

end Index
end Listing.SearchIndex

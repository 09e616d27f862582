/-
# The fields that a document filter reads

An expression is computed by operators from the values of the fields that it names, and a filter
tests fields and expressions. Whatever the operators compute, two documents that agree on these
fields give the same result.

A value of the request is no field here, however it is spelled: this is about filters, and not
about the JSON that a store is sent.
-/
import Listing.Proofs.Semantics.DocumentFilter

namespace Listing.Document

/-- What the operators of expressions compute. -/
structure Operators where
  apply : String → List Datum → Datum
  regexMatch : Datum → String → String → Datum

namespace Expr

variable (operators : Operators)

mutual
/-- The value of an expression for a document. -/
def eval (fields : Fields) : Expr → Datum
  | .field path => fields path
  | .value v => v.datum
  | .apply operator arguments => operators.apply operator (evalAll fields arguments)
  | .regexMatch input pattern options =>
    operators.regexMatch (eval fields input) pattern options

/-- The values of several expressions. -/
def evalAll (fields : Fields) : List Expr → List Datum
  | [] => []
  | e :: es => eval fields e :: evalAll fields es
end

mutual
/-- The fields that an expression names. -/
def paths : Expr → List String
  | .field path => [path]
  | .value _ => []
  | .apply _ arguments => pathsOfAll arguments
  | .regexMatch input _ _ => paths input

/-- The fields that several expressions name. -/
def pathsOfAll : List Expr → List String
  | [] => []
  | e :: es => paths e ++ pathsOfAll es
end

variable {operators}

mutual
/-- An expression depends only on the fields that it names. -/
theorem eval_congr {fields fields' : Fields} : ∀ e : Expr,
    (∀ path ∈ e.paths, fields path = fields' path) →
      e.eval operators fields = e.eval operators fields'
  | .field path, hagree => hagree path (List.mem_singleton.2 rfl)
  | .value v, _ => rfl
  | .apply operator arguments, hagree => by
      rw [eval, eval, evalAll_congr arguments hagree]
  | .regexMatch input pattern options, hagree => by
      rw [eval, eval, eval_congr input hagree]

theorem evalAll_congr {fields fields' : Fields} : ∀ es : List Expr,
    (∀ path ∈ pathsOfAll es, fields path = fields' path) →
      evalAll operators fields es = evalAll operators fields' es
  | [], _ => rfl
  | e :: es, hagree => by
      rw [evalAll, evalAll,
        eval_congr e fun path hpath => hagree path (List.mem_append_left _ hpath),
        evalAll_congr es fun path hpath => hagree path (List.mem_append_right _ hpath)]
end

end Expr

/-- The engine whose expressions are computed by operators; an expression holds if it is true. -/
def Engine.computing (engine : Engine) (operators : Operators) : Engine :=
  { engine with expr := fun fields e => e.eval operators fields == .bool true }

namespace Filter

mutual
/-- The fields that a filter tests or names. -/
def paths : Filter → List String
  | .field path _ => [path]
  | .and filters | .or filters | .nor filters => pathsOfAll filters
  | .expr e => e.paths

/-- The fields of several filters. -/
def pathsOfAll : List Filter → List String
  | [] => []
  | f :: fs => paths f ++ pathsOfAll fs
end

theorem pathsOfAll_eq_flatMap (fs : List Filter) : pathsOfAll fs = fs.flatMap paths := by
  induction fs with
  | nil => rfl
  | cons f fs ih => rw [pathsOfAll, ih, List.flatMap_cons]

mutual
/-- A filter depends only on its fields. -/
theorem holds_congr (engine : Engine) (operators : Operators) {fields fields' : Fields} :
    ∀ f : Filter, (∀ path ∈ f.paths, fields path = fields' path) →
      (engine.computing operators).holds fields f = (engine.computing operators).holds fields' f
  | .field path test, hagree => by
      rw [Engine.holds, Engine.holds, hagree path (List.mem_singleton.2 rfl)]
  | .and filters, hagree => by
      rw [Engine.holds, Engine.holds, holdsEach_congr engine operators filters hagree]
  | .or filters, hagree => by
      rw [Engine.holds, Engine.holds, holdsEach_congr engine operators filters hagree]
  | .nor filters, hagree => by
      rw [Engine.holds, Engine.holds, holdsEach_congr engine operators filters hagree]
  | .expr e, hagree => by
      rw [Engine.holds, Engine.holds, Engine.computing]
      dsimp only
      rw [Expr.eval_congr e hagree]

theorem holdsEach_congr (engine : Engine) (operators : Operators) {fields fields' : Fields} :
    ∀ fs : List Filter, (∀ path ∈ pathsOfAll fs, fields path = fields' path) →
      (engine.computing operators).holdsEach fields fs =
        (engine.computing operators).holdsEach fields' fs
  | [], _ => rfl
  | f :: fs, hagree => by
      rw [Engine.holdsEach, Engine.holdsEach,
        holds_congr engine operators f fun path hpath => hagree path (List.mem_append_left _ hpath),
        holdsEach_congr engine operators fs fun path hpath =>
          hagree path (List.mem_append_right _ hpath)]
end

end Filter

end Listing.Document

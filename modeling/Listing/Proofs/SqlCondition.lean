/-
# Conditions, once paths and operands are found

The condition of a valid comparison is decided by the column of its attribute and by its operand.
The three look-ups that come first succeed, so what is left is one function of column and operand;
proofs about conditions follow this function and leave the look-ups to validation.
-/
import Listing.Proofs.Validity
import Listing.Sql.Selection

namespace Listing.Sql.Target

variable {t : Target}

/-- The condition of a comparison of a column of some kind with an operand. -/
def conditionOf (t : Target) (c : Comparison) (kind : Kind) (column : Expr) (operand : Operand) :
    Result Expr :=
  match c.function with
  | none => do
    let test ← t.test c.param c.operator.positive kind column operand
    return .negateIf c.operator.isNegated test
  | some function => do
    let e ← function.transforms.foldlM (fun e name => t.call c.param name [e]) column
    match function.predicate? with
    | some name => t.call c.param name (e :: operand.values.map .scalar)
    | none =>
      let test ← t.test c.param c.valueOperator.positive .scalar e operand
      return .negateIf c.valueOperator.isNegated test

/-- The condition of a comparison whose attribute and operand are found. -/
theorem comparison_eq {stem : String} {c : Comparison} {located : Located} {operand : Operand}
    (hlocate : t.registry.locate t.resource c.param c.path = .ok located)
    (hoperand : Operand.ofComparison c located.attr = .ok operand) :
    t.comparison stem c = t.columnOf stem c.param located >>= fun column =>
      t.conditionOf c located.attr.kind column operand := by
  unfold comparison
  rw [hlocate]
  show (t.columnOf stem c.param located >>= fun column =>
    Operand.ofComparison c located.attr >>= fun operand => _) = _
  rw [hoperand]
  unfold conditionOf
  cases c.function <;> rfl

/-- The conditions of several filters are found one after the other. -/
theorem conditions_eq_mapM (stem : String) (fs : List Filter) :
    t.conditions stem fs = fs.mapM (t.condition stem) := by
  induction fs with
  | nil => rfl
  | cons f fs ih =>
      rw [conditions, List.mapM_cons, ih]

end Listing.Sql.Target

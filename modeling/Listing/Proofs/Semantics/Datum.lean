/-
# Stored values

What a store holds under a name, as far as the meaning of a query depends on it. Numbers are ordered
by size, texts by code point, and false comes before true; two values of different types, and values
of any further type, have no order here. What a store makes of those is left to the semantics of
each store.

Operands are given the same values, whether they are bound to a statement or written as JSON. For
the operands of texts, integers and truth values the two ways agree.
-/
import Listing.Operand
import Listing.Sql.Value

namespace Listing

/-- A stored value. -/
inductive Datum
  | null
  | bool (value : Bool)
  | number (value : Rat)
  | text (value : String)
  /-- A value of a further type, by the way it is written. -/
  | other (literal : String)
  deriving DecidableEq, Repr, Inhabited

namespace Datum

/-- The order of two values of one type. -/
def order? : Datum → Datum → Option Ordering
  | .bool a, .bool b => some (compareOfLessAndEq a b)
  | .number a, .number b => some (compareOfLessAndEq a b)
  | .text a, .text b => some (compareOfLessAndEq a b)
  | _, _ => none

/-- The two values have an order, and it is one of those asked for. -/
def related (p : Ordering → Bool) (x y : Datum) : Bool := (x.order? y).any p

end Datum

/-- The exact value of a double. -/
def Double.value (x : Double) : Rat :=
  mkRat (if x.negative then -(x.ratio.1 : Int) else x.ratio.1) x.ratio.2

/-- The value of an operand. -/
def Scalar.datum : Scalar → Datum
  | .null => .null
  | .bool b => .bool b
  | .int n => .number n
  | .double x => .number x.value
  | .text s => .text s
  | .date d => .other d.text
  | .dateTime t => .other t.text
  | .uuid u => .other u.text
  | .json v => .other v.render

/-- The value of a bound value. -/
def Sql.Value.datum : Sql.Value → Datum
  | .scalar s => s.datum
  | .array _ items => .other (Json.array (items.map Scalar.toJson)).render
  | .word n => .number n
  | .natural n => .number (n : Int)

/-- The value of a JSON value. -/
def Json.datum : Json → Datum
  | .null => .null
  | .bool b => .bool b
  | .int n => .number n
  | .double x => .number x.value
  | .string s => .text s
  | .array items => .other (Json.array items).render
  | .object entries => .other (Json.object entries).render

/-- The kinds whose values are texts, numbers and truth values. -/
def Kind.isBasic : Kind → Bool
  | .string | .numeric | .boolean => true
  | _ => false

/-- A value of one of these kinds that is not null. -/
inductive Kind.Holds : Kind → Datum → Prop
  | text (s : String) : Holds .string (.text s)
  | number (q : Rat) : Holds .numeric (.number q)
  | bool (b : Bool) : Holds .boolean (.bool b)

namespace Kind.Holds

variable {kind : Kind} {x y : Datum}

theorem ne_null (hx : kind.Holds x) : x ≠ .null := by
  cases hx <;> simp

/-- Two values of one kind have an order. -/
theorem exists_order? (hx : kind.Holds x) (hy : kind.Holds y) : ∃ o, x.order? y = some o := by
  cases hx <;> cases hy <;> exact ⟨_, rfl⟩

/-- Values of one kind are equal in their order only if they are the same. -/
theorem related_isEq (hx : kind.Holds x) (hy : kind.Holds y) :
    x.related Ordering.isEq y = decide (x = y) := by
  cases hx <;> cases hy <;>
    · rename_i a b
      simp only [Datum.related, Datum.order?, Option.any_some, compareOfLessAndEq]
      split
      · rename_i hlt
        have hne : a ≠ b := by
          rintro rfl
          revert hlt
          simp
        simp [Ordering.isEq, hne]
      · split
        · rename_i heq
          simp [heq, Ordering.isEq]
        · rename_i hne
          simp [hne, Ordering.isEq]

end Kind.Holds

namespace Scalar

/-- An operand that is a text, an integer or a truth value, for an attribute of its kind. -/
inductive IsBasic : Kind → Scalar → Prop
  | text (s : String) : IsBasic .string (.text s)
  | int (n : Int) : IsBasic .numeric (.int n)
  | bool (b : Bool) : IsBasic .boolean (.bool b)

namespace IsBasic

variable {kind : Kind} {s : Scalar}

theorem holds (hs : s.IsBasic kind) : kind.Holds s.datum := by
  cases hs
  · exact .text _
  · exact .number _
  · exact .bool _

/-- Written as JSON, a basic operand has the same value. -/
theorem datum_toJson (hs : s.IsBasic kind) : s.toJson.datum = s.datum := by
  cases hs <;> rfl

end IsBasic

/-- What is read for a basic kind is a basic operand, if a number is an integer. -/
theorem isBasic_of_read {kind : Kind} (hkind : kind.isBasic = true) {value : Json} {s : Scalar}
    (hread : read kind value = .ok s) (hint : kind = .numeric → ∃ n, s = .int n) :
    s.IsBasic kind := by
  have hof : ofKind? kind value = some s := by
    unfold read at hread
    split at hread
    · cases hread
    · split at hread
      · rename_i hof
        cases hread
        exact hof
      · cases hread
  cases kind with
  | string =>
      cases value <;> cases hof <;> exact .text _
  | numeric =>
      obtain ⟨n, rfl⟩ := hint rfl
      exact .int n
  | boolean =>
      have hbool : ∃ b, s = .bool b := by
        cases value with
        | bool b =>
            cases hof
            exact ⟨b, rfl⟩
        | int n =>
            simp only [ofKind?] at hof
            split at hof
            · cases hof
              exact ⟨true, rfl⟩
            · split at hof
              · cases hof
                exact ⟨false, rfl⟩
              · cases hof
        | string text =>
            simp only [ofKind?, ofBoolText?] at hof
            split at hof
            · cases hof
              exact ⟨true, rfl⟩
            · split at hof
              · cases hof
                exact ⟨false, rfl⟩
              · cases hof
        | null | double _ | array _ | object _ => cases hof
      obtain ⟨b, rfl⟩ := hbool
      exact .bool b
  | scalar | date | dateTime | uuid | collection | json => cases hkind

end Scalar
end Listing

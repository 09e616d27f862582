/-
# Well-formed filters

A document store refuses a filter with a connective of no filters, and one that tests a field with
an empty name on its path. What counts is where the store reads a filter: below a connective, in an
expression, and below a field wherever an object stands whose first key begins with a dollar sign.
Everything else below a field or an operator is data, whose keys may be of any form.

In an expression every text that begins with a dollar sign is a path, and every key that does not
begin with one is the name of a field. Only under `$literal` is a value not looked at.
-/
import Listing.Proofs.Semantics.DocumentReading
import Listing.Proofs.Semantics.Pipelines

namespace Listing.Document

/-- No name on the path is empty. -/
def isNamed (path : String) : Bool := (pathNames path).all (! ·.isEmpty)

/-- The connectives. -/
def connectiveKeys : List String := ["$and", "$or", "$nor"]

/-- A list without items. -/
def isEmptyList : Json → Bool
  | .array [] => true
  | _ => false

/-- A key of an object in an expression: a connective is not given an empty list, and what is no
operator is the name of a field. -/
def isWellFormedKey (key : String) (v : Json) : Bool :=
  if isMarked key then !(connectiveKeys.contains key && isEmptyList v) else isNamed key

mutual
/-- A well-formed expression. -/
def isWellFormedExpr : Json → Bool
  | .string s => !isMarked s || isNamed (unmarked s)
  | .array items => areWellFormedExprs items
  | .object entries => areWellFormedCalls entries
  | .null | .bool _ | .int _ | .double _ => true

/-- All of several expressions are well formed. -/
def areWellFormedExprs : List Json → Bool
  | [] => true
  | v :: vs => isWellFormedExpr v && areWellFormedExprs vs

/-- The entries of an object in an expression are well formed. -/
def areWellFormedCalls : List (String × Json) → Bool
  | [] => true
  | (key, v) :: entries =>
    (key == "$literal" || isWellFormedKey key v && isWellFormedExpr v) && areWellFormedCalls entries
end

/-- What stands under a key of a query. -/
inductive Role
  /-- The filters of a connective. -/
  | filters
  | expression
  /-- Values, each of which may be an object of operators. -/
  | values
  /-- A filter, or an object of operators. -/
  | filter
  /-- A value that is taken as it is. -/
  | operand
  /-- What a field is compared with: a value, or an object of operators. -/
  | test

/-- The role of what stands under a key. -/
def Role.ofKey (key : String) : Role :=
  if connectiveKeys.contains key then .filters
  else if key = "$expr" then .expression
  else if ["$in", "$nin", "$all"].contains key then .values
  else if ["$not", "$elemMatch"].contains key then .filter
  else if isMarked key then .operand
  else .test

mutual
/-- A well-formed filter, or object of operators. -/
def isWellFormed : Json → Bool
  | .object entries => areWellFormedEntries entries
  | .null | .bool _ | .int _ | .double _ | .string _ | .array _ => true

/-- The entries of a filter, or of an object of operators, are well formed. -/
def areWellFormedEntries : List (String × Json) → Bool
  | [] => true
  | (key, v) :: entries =>
    (match Role.ofKey key with
      | .filters => isWellFormedConnection v
      | .expression => isWellFormedExpr v
      | .values => holdsWellFormedValues v
      | .filter => isWellFormed v
      | .operand => true
      | .test => isNamed key && (!opensOperator v || isWellFormed v)) &&
    areWellFormedEntries entries

/-- What a connective combines: there is a filter, and all of them are well formed. -/
def isWellFormedConnection : Json → Bool
  | .array items => !items.isEmpty && areWellFormed items
  | .null | .bool _ | .int _ | .double _ | .string _ | .object _ => true

/-- All of several filters are well formed. -/
def areWellFormed : List Json → Bool
  | [] => true
  | v :: vs => isWellFormed v && areWellFormed vs

/-- All items of a list are well formed where an object may be one of operators. -/
def holdsWellFormedValues : Json → Bool
  | .array items => areWellFormedValues items
  | .null | .bool _ | .int _ | .double _ | .string _ | .object _ => true

/-- All of several values are well formed. -/
def areWellFormedValues : List Json → Bool
  | [] => true
  | v :: vs => (!opensOperator v || isWellFormed v) && areWellFormedValues vs
end

/-- A value is well formed where an object may be one of operators. -/
def isWellFormedValue (v : Json) : Bool := !opensOperator v || isWellFormed v

theorem areWellFormedExprs_eq_all (vs : List Json) :
    areWellFormedExprs vs = vs.all isWellFormedExpr := by
  induction vs with
  | nil => rfl
  | cons v vs ih => rw [areWellFormedExprs, ih, List.all_cons]

theorem areWellFormed_eq_all (vs : List Json) : areWellFormed vs = vs.all isWellFormed := by
  induction vs with
  | nil => rfl
  | cons v vs ih => rw [areWellFormed, ih, List.all_cons]

theorem areWellFormedValues_eq_all (vs : List Json) :
    areWellFormedValues vs = vs.all isWellFormedValue := by
  induction vs with
  | nil => rfl
  | cons v vs ih => rw [areWellFormedValues, ih, List.all_cons, isWellFormedValue]

/-! ### Paths -/

/-- Pieces before and after a cut are the pieces of the whole. -/
theorem splitWhere_append_cut {cut : Char → Bool} {separator : Char}
    (hcut : cut separator = true) (front rest : List Char) :
    Text.splitWhere cut (front ++ separator :: rest) =
      Text.splitWhere cut front ++ Text.splitWhere cut rest := by
  induction front with
  | nil => simp [Text.splitWhere, hcut]
  | cons c front ih =>
      rw [List.cons_append, Text.splitWhere, Text.splitWhere, ih]
      split
      · rfl
      · cases hpieces : Text.splitWhere cut front with
        | nil => exact absurd hpieces (Text.splitWhere_ne_nil _ _)
        | cons piece pieces => rfl

/-- The names on a path that continues another are those of both. -/
theorem isNamed_below (field name : String) :
    isNamed (field ++ "." ++ name) = (isNamed field && isNamed name) := by
  have hchars : (field ++ "." ++ name).toList = field.toList ++ '.' :: name.toList := by simp
  have hnames : pathNames (field ++ "." ++ name) = pathNames field ++ pathNames name := by
    simp only [pathNames, Text.splitOnChar, hchars]
    rw [splitWhere_append_cut (by rfl), List.map_append]
  rw [isNamed, hnames, List.all_append]
  rfl

/-! ### Expressions -/

namespace Expr

/-- The JSON form of the expression is well formed. -/
def IsWellFormed (e : Expr) : Prop := isWellFormedExpr e.toJson = true

variable {e : Expr}

theorem isWellFormed_field (path : String) :
    (Expr.field path).IsWellFormed ↔ isNamed path = true := by
  rw [IsWellFormed, toJson, isWellFormedExpr, isMarked_fieldRef, unmarked_fieldRef]
  rfl

/-- What is computed is written as a text or an object. -/
theorem isEmptyList_toJson (hcomputed : e.isValue = false) : isEmptyList e.toJson = false := by
  cases e with
  | value v => cases hcomputed
  | field path => rfl
  | regexMatch input pattern options => rfl
  | apply operator arguments =>
      match arguments with
      | [] => rfl
      | [argument] => rfl
      | first :: second :: rest => rfl

/-- An operator is well formed if what it is applied to is. -/
theorem isWellFormed_call {operator : String} (hoperator : isMarked operator = true)
    (hliteral : operator ≠ "$literal") {v : Json} (hv : isEmptyList v = false) :
    isWellFormedExpr (.object [(operator, v)]) = isWellFormedExpr v := by
  simp [isWellFormedExpr, areWellFormedCalls, isWellFormedKey, hoperator, hliteral, hv]

/-- An operator that is applied to what is computed is well formed if its arguments are. -/
theorem isWellFormed_apply {operator : String} (hoperator : isMarked operator = true)
    (hliteral : operator ≠ "$literal") (hcomputed : e.isValue = false) (arguments : List Expr) :
    (Expr.apply operator (e :: arguments)).IsWellFormed ↔
      e.IsWellFormed ∧ ∀ argument ∈ arguments, argument.IsWellFormed := by
  cases arguments with
  | nil =>
      rw [IsWellFormed, toJson, isWellFormed_call hoperator hliteral (isEmptyList_toJson hcomputed)]
      simp [IsWellFormed]
  | cons second rest =>
      rw [IsWellFormed, toJson, isWellFormed_call hoperator hliteral (by rfl), isWellFormedExpr,
        areWellFormedExprs_eq_all, toJsonAll_eq_map, List.all_map, List.all_eq_true,
        List.forall_mem_cons]
      · rfl
      · simp

/-- A match is well formed if its input and its pattern are. -/
theorem isWellFormed_regexMatch {pattern options : String} (hoptions : isMarked options = false) :
    (Expr.regexMatch e pattern options).IsWellFormed ↔
      e.IsWellFormed ∧ isWellFormedExpr (.string pattern) = true := by
  have hargument (name : String) (v : Json) (hname : name ∈ ["input", "regex", "options"]) :
      (name == "$literal" || isWellFormedKey name v && isWellFormedExpr v) =
        isWellFormedExpr v := by
    have hkey : ∀ name ∈ ["input", "regex", "options"], (name == "$literal") = false ∧
        isMarked name = false ∧ isNamed name = true := by decide
    obtain ⟨hliteral, hmarked, hnamed⟩ := hkey name hname
    simp [isWellFormedKey, hliteral, hmarked, hnamed]
  have htext : isWellFormedExpr (.string options) = true := by simp [isWellFormedExpr, hoptions]
  have hrecord : isWellFormedExpr (.object [("input", e.toJson), ("regex", .string pattern),
      ("options", .string options)]) =
      (isWellFormedExpr e.toJson && isWellFormedExpr (.string pattern)) := by
    show areWellFormedCalls _ = _
    simp only [areWellFormedCalls]
    rw [hargument "input" _ (by decide), hargument "regex" _ (by decide),
      hargument "options" _ (by decide), htext, Bool.and_true, Bool.and_true]
  rw [IsWellFormed, toJson, isWellFormed_call (by decide) (by decide) (by rfl), hrecord,
    Bool.and_eq_true]
  rfl

end Expr

/-! ### Tests -/

/-- A field is no operator. -/
theorem Role.ofKey_field {path : String} (hname : isMarked path = false) :
    Role.ofKey path = .test := by
  have hplain {words : List String} (hwords : ∀ word ∈ words, isMarked word = true) :
      words.contains path = false := by
    rw [← Bool.not_eq_true, List.contains_iff_mem]
    intro hmem
    rw [hwords path hmem] at hname
    cases hname
  have hexpr : path ≠ "$expr" := by
    rintro rfl
    cases hname
  rw [ofKey, hplain (by decide), hplain (by decide), hplain (by decide), if_neg hexpr, hname]
  rfl

namespace FieldTest

/-- The values of the test are well formed where an object may be one of operators. -/
def IsWellFormed : FieldTest → Prop
  | .among values | .holdsAll values => ∀ v ∈ values, isWellFormedValue v = true
  | .is v => isWellFormedValue v = true
  | .compare .. | .between .. | .regex .. | .exists_ => True

theorem isWellFormedValue_toJson (test : FieldTest) :
    isWellFormedValue test.toJson = true ↔ test.IsWellFormed := by
  cases test with
  | compare comparator v => cases comparator <;> exact iff_of_true rfl trivial
  | between low high => exact iff_of_true rfl trivial
  | regex pattern options => exact iff_of_true rfl trivial
  | exists_ => exact iff_of_true rfl trivial
  | is v => exact Iff.rfl
  | among values | holdsAll values =>
      show (areWellFormedValues values && true) = true ↔ _
      rw [Bool.and_true, areWellFormedValues_eq_all, List.all_eq_true]
      rfl

end FieldTest

/-! ### Filters -/

namespace Filter

/-- The JSON form of the filter is well formed. -/
def IsWellFormed (f : Filter) : Prop := isWellFormed f.toJson = true

variable {fs : List Filter}

theorem isWellFormed_field {path : String} (hname : isMarked path = false) (test : FieldTest) :
    (Filter.field path test).IsWellFormed ↔ isNamed path = true ∧ test.IsWellFormed := by
  rw [← FieldTest.isWellFormedValue_toJson]
  simp [IsWellFormed, toJson, isWellFormed, areWellFormedEntries, Role.ofKey_field hname,
    isWellFormedValue]

theorem isWellFormed_expr (e : Expr) : (Filter.expr e).IsWellFormed ↔ e.IsWellFormed := by
  have hform : isWellFormed (toJson (.expr e)) = (isWellFormedExpr e.toJson && true) := rfl
  rw [IsWellFormed, hform, Bool.and_true]
  rfl

/-- What a connective combines is well formed if there is a filter, and all of them are. -/
theorem isWellFormed_connection {key : String} (hkey : connectiveKeys.contains key = true) :
    isWellFormed (.object [(key, .array (toJsonAll fs))]) = true ↔
      fs ≠ [] ∧ ∀ f ∈ fs, f.IsWellFormed := by
  have hrole : Role.ofKey key = .filters := by rw [Role.ofKey, if_pos hkey]
  simp only [isWellFormed, areWellFormedEntries, hrole, isWellFormedConnection, Bool.and_true]
  rw [areWellFormed_eq_all, toJsonAll_eq_map, List.all_map, Bool.and_eq_true, List.all_eq_true]
  simp [IsWellFormed]

theorem isWellFormed_and : (Filter.and fs).IsWellFormed ↔ fs ≠ [] ∧ ∀ f ∈ fs, f.IsWellFormed :=
  isWellFormed_connection (by decide)

theorem isWellFormed_or : (Filter.or fs).IsWellFormed ↔ fs ≠ [] ∧ ∀ f ∈ fs, f.IsWellFormed :=
  isWellFormed_connection (by decide)

theorem isWellFormed_nor : (Filter.nor fs).IsWellFormed ↔ fs ≠ [] ∧ ∀ f ∈ fs, f.IsWellFormed :=
  isWellFormed_connection (by decide)

/-- A conjunction is well formed under the same condition where it is left out for one filter. -/
theorem isWellFormed_all : (Filter.all fs).IsWellFormed ↔ fs ≠ [] ∧ ∀ f ∈ fs, f.IsWellFormed := by
  unfold Filter.all
  split
  · simp
  · exact isWellFormed_and

theorem isWellFormed_negateIf (negated : Bool) (f : Filter) :
    (Filter.negateIf negated f).IsWellFormed ↔ f.IsWellFormed := by
  cases negated with
  | false => rfl
  | true =>
      show (Filter.nor [f]).IsWellFormed ↔ _
      simp [isWellFormed_nor]

end Filter
end Listing.Document

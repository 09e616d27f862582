/-
# How a document store reads a filter

A filter is sent as JSON, and what a text or a key means to the store is decided by its first
character. In an expression a text that begins with a dollar sign names a field, and a key that
does names an operator; only JSON without such texts and keys stands for itself. In the query
language texts stand for themselves, but an object whose first key begins with a dollar sign is
read as operators wherever it stands for a field, or for an item of `$in` or `$all`.

`read?` gives the filter that the store takes JSON for, as far as the filters of this library go.
A filter that is `Spelled` is taken for itself.
-/
import Listing.Document.Filter

namespace Listing.Document

/-- A text begins with a dollar sign. -/
def isMarked (s : String) : Bool := s.toList.head? == some '$'

/-- The text after the dollar sign. -/
def unmarked (s : String) : String := String.ofList (s.toList.drop 1)

mutual
/-- No text and no key in the value, at any depth, begins with a dollar sign. -/
def isLiteral : Json → Bool
  | .string s => !isMarked s
  | .array items => areLiteral items
  | .object entries => entriesLiteral entries
  | .null | .bool _ | .int _ | .double _ => true

/-- All of the values are literal. -/
def areLiteral : List Json → Bool
  | [] => true
  | v :: vs => isLiteral v && areLiteral vs

/-- No key is marked, and all of the values are literal. -/
def entriesLiteral : List (String × Json) → Bool
  | [] => true
  | (key, v) :: entries => !isMarked key && isLiteral v && entriesLiteral entries
end

/-- An object that the query language reads as operators. -/
def opensOperator : Json → Bool
  | .object ((key, _) :: _) => isMarked key
  | _ => false

mutual
/-- The expression that a JSON value is taken for. -/
def Expr.read? : Json → Option Expr
  | .string s => some (if isMarked s then .field (unmarked s) else .value (.string s))
  | .array items => if areLiteral items then some (.value (.array items)) else none
  | .object entries =>
    if entriesLiteral entries then some (.value (.object entries)) else Expr.readCall? entries
  | v => some (.value v)

/-- The call that an object is taken for. Two operators do not take their arguments as a list:
`$literal` takes its argument as it is, and `$regexMatch` takes them by name. -/
def Expr.readCall? : List (String × Json) → Option Expr
  | [(operator, argument)] =>
    if operator = "$literal" then some (.value argument)
    else if operator = "$regexMatch" then Expr.readMatch? argument
    else match argument with
      | .array items => (Expr.readAll? items).map (.apply operator)
      | argument => (Expr.read? argument).map (.apply operator [·])
  | _ => none

/-- The match that the arguments of `$regexMatch` are taken for. -/
def Expr.readMatch? : Json → Option Expr
  | .object [(first, input), (second, .string pattern), (third, .string options)] =>
    if first = "input" ∧ second = "regex" ∧ third = "options" ∧ isMarked pattern = false ∧
        isMarked options = false then
      (Expr.read? input).map (.regexMatch · pattern options)
    else none
  | _ => none

/-- The expressions that several JSON values are taken for. -/
def Expr.readAll? : List Json → Option (List Expr)
  | [] => some []
  | v :: vs => do return (← Expr.read? v) :: (← Expr.readAll? vs)
end

/-- The comparison with a name. -/
def Comparator.ofName? (name : String) : Option Comparator :=
  [Comparator.eq, .ne, .gt, .gte, .lt, .lte].find? (·.name == name)

/-- The list of items under `$in` or `$all`; an item is not to be read as operators. -/
def readItems? : Json → Option (List Json)
  | .array items => if items.any opensOperator then none else some items
  | _ => none

/-- The test that operators are taken for. -/
def FieldTest.readOperators? : List (String × Json) → Option FieldTest
  | [(name, argument)] => match Comparator.ofName? name with
    | some comparator => some (.compare comparator argument)
    | none =>
      if name = "$in" then (readItems? argument).map .among
      else if name = "$all" then (readItems? argument).map .holdsAll
      else if name = "$exists" then some .exists_
      else none
  | [(first, low), (second, high)] =>
    if first = "$gte" ∧ second = "$lte" then some (.between low high)
    else if first = "$regex" ∧ second = "$options" then do
      return .regex (← low.asString?) (← high.asString?)
    else none
  | _ => none

/-- The test of a field that a JSON value is taken for. -/
def FieldTest.read? (v : Json) : Option FieldTest :=
  if opensOperator v then match v with
    | .object entries => FieldTest.readOperators? entries
    | _ => none
  else some (.is v)

mutual
/-- The filter that a JSON value is taken for. -/
def Filter.read? : Json → Option Filter
  | .object [(key, v)] =>
    if key = "$expr" then (Expr.read? v).map .expr
    else match v with
      | .array items =>
        if key = "$and" then (Filter.readAll? items).map .and
        else if key = "$or" then (Filter.readAll? items).map .or
        else if key = "$nor" then (Filter.readAll? items).map .nor
        else if isMarked key then none
        else (FieldTest.read? (.array items)).map (.field key)
      | v => if isMarked key then none else (FieldTest.read? v).map (.field key)
  | _ => none

/-- The filters that several JSON values are taken for. -/
def Filter.readAll? : List Json → Option (List Filter)
  | [] => some []
  | v :: vs => do return (← Filter.read? v) :: (← Filter.readAll? vs)
end

/-- What is read back one by one is read back as a list. -/
theorem mapM_map_of_inverse {α β : Type} {write : α → β} {read : β → Option α} {xs : List α}
    (hread : ∀ x ∈ xs, read (write x) = some x) : (xs.map write).mapM read = some xs := by
  induction xs with
  | nil => rfl
  | cons x xs ih =>
      rw [List.map_cons, List.mapM_cons, hread x List.mem_cons_self,
        ih fun y hy => hread y (List.mem_cons_of_mem x hy)]
      rfl

/-- The operators that do not take a list of arguments. -/
def takesNoList : List String := ["$literal", "$regexMatch"]

namespace Expr

/-- The expression is a value of the request. -/
def isValue : Expr → Bool
  | .value _ => true
  | _ => false

/-- An expression that the store takes for itself: its values and patterns are literal, and an
operator has an argument that is computed. -/
inductive Spelled : Expr → Prop
  | field (path : String) : Spelled (.field path)
  | value (v : Json) (literal : isLiteral v = true) : Spelled (.value v)
  | apply (operator : String) (arguments : List Expr) (lists : operator ∉ takesNoList)
      (computed : ∃ e ∈ arguments, e.isValue = false) (each : ∀ e ∈ arguments, Spelled e) :
      Spelled (.apply operator arguments)
  | regexMatch (input : Expr) (pattern options : String) (literal : isMarked pattern = false)
      (plain : isMarked options = false) (spelled : Spelled input) :
      Spelled (.regexMatch input pattern options)

theorem isMarked_fieldRef (path : String) : isMarked (fieldRef path) = true := by
  simp [isMarked, fieldRef]

theorem unmarked_fieldRef (path : String) : unmarked (fieldRef path) = path := by
  simp [unmarked, fieldRef]

/-- Values are literal if all of them are. -/
theorem areLiteral_eq_all (vs : List Json) : areLiteral vs = vs.all isLiteral := by
  induction vs with
  | nil => rfl
  | cons v vs ih => rw [areLiteral, ih, List.all_cons]

theorem toJsonAll_eq_map (es : List Expr) : toJsonAll es = es.map toJson := by
  induction es with
  | nil => rfl
  | cons e es ih => rw [toJsonAll, ih, List.map_cons]

theorem readAll?_eq_mapM (vs : List Json) : readAll? vs = vs.mapM read? := by
  induction vs with
  | nil => rfl
  | cons v vs ih =>
      rw [readAll?, ih, List.mapM_cons]

theorem readAll?_toJsonAll {es : List Expr} (hread : ∀ e ∈ es, read? e.toJson = some e) :
    readAll? (toJsonAll es) = some es := by
  rw [readAll?_eq_mapM, toJsonAll_eq_map]
  exact mapM_map_of_inverse hread

/-- The JSON form of a computed expression is not literal, and is no list. -/
theorem Spelled.not_literal {e : Expr} (hspelled : e.Spelled) (hcomputed : e.isValue = false) :
    isLiteral e.toJson = false ∧ ∀ items, e.toJson ≠ .array items := by
  induction hspelled with
  | field path => simp [toJson, isLiteral, isMarked_fieldRef]
  | value v literal => cases hcomputed
  | regexMatch input pattern options literal plain spelled ih =>
      simp [toJson, isLiteral, entriesLiteral, isMarked]
  | apply operator arguments lists computed each ih =>
      obtain ⟨e, he, hvalue⟩ := computed
      have hliteral := (ih e he hvalue).1
      match arguments with
      | [argument] =>
          rw [List.mem_singleton.1 he] at hliteral
          simp [toJson, isLiteral, entriesLiteral, hliteral]
      | first :: second :: rest =>
          have hall : areLiteral (toJsonAll (first :: second :: rest)) = false := by
            rw [areLiteral_eq_all, toJsonAll_eq_map, List.all_eq_false]
            exact ⟨e.toJson, List.mem_map_of_mem he, by simp [hliteral]⟩
          simp [toJson, isLiteral, entriesLiteral, hall]

/-- An object that is not literal is a call. -/
theorem read?_object {operator : String} {argument : Json}
    (hliteral : isLiteral (.object [(operator, argument)]) = false) :
    read? (.object [(operator, argument)]) = readCall? [(operator, argument)] := by
  rw [isLiteral] at hliteral
  simp [read?, hliteral]

/-- An operator with one argument, and one with a list of them. -/
theorem readCall?_single {operator : String} (hlists : operator ∉ takesNoList) {v : Json}
    (hsingle : ∀ items, v ≠ .array items) :
    readCall? [(operator, v)] = (read? v).map (.apply operator [·]) := by
  rw [takesNoList, List.mem_cons, List.mem_singleton, not_or] at hlists
  rw [readCall?, if_neg hlists.1, if_neg hlists.2]
  exact hsingle

theorem readCall?_list {operator : String} (hlists : operator ∉ takesNoList) (vs : List Json) :
    readCall? [(operator, .array vs)] = (readAll? vs).map (.apply operator) := by
  rw [takesNoList, List.mem_cons, List.mem_singleton, not_or] at hlists
  rw [readCall?, if_neg hlists.1, if_neg hlists.2]

/-- A spelled expression is taken for itself. -/
theorem Spelled.read?_toJson {e : Expr} (hspelled : e.Spelled) : read? e.toJson = some e := by
  induction hspelled with
  | field path => simp [toJson, read?, isMarked_fieldRef, unmarked_fieldRef]
  | value v literal =>
      rw [toJson]
      cases v <;> simp_all [read?, isLiteral]
  | regexMatch input pattern options literal plain spelled ih =>
      have hcall := (Spelled.regexMatch input pattern options literal plain spelled).not_literal rfl
      rw [toJson] at hcall ⊢
      rw [read?_object hcall.1]
      simp [readCall?, readMatch?, literal, plain, ih]
  | apply operator arguments lists computed each ih =>
      have hcall := (Spelled.apply operator arguments lists computed each).not_literal rfl
      match arguments with
      | [] => simp at computed
      | [argument] =>
          obtain ⟨e, he, hvalue⟩ := computed
          rw [List.mem_singleton.1 he] at hvalue
          have hsingle := ((each argument List.mem_cons_self).not_literal hvalue).2
          rw [toJson] at hcall ⊢
          rw [read?_object hcall.1, readCall?_single lists hsingle, ih argument List.mem_cons_self]
          rfl
      | first :: second :: rest =>
          rw [toJson] at hcall ⊢
          · rw [read?_object hcall.1, readCall?_list lists, readAll?_toJsonAll ih]
            rfl
          all_goals simp

end Expr

namespace FieldTest

/-- A test that the store takes for itself: what stands for a field or for an item of a list is not
to be read as operators. -/
def Spelled : FieldTest → Prop
  | .among values | .holdsAll values => ∀ v ∈ values, opensOperator v = false
  | .is v => opensOperator v = false
  | _ => True

theorem readItems?_array {values : List Json} (hvalues : ∀ v ∈ values, opensOperator v = false) :
    readItems? (.array values) = some values := by
  have hany : values.any opensOperator = false := by
    rw [List.any_eq_false]
    intro v hv
    simp [hvalues v hv]
  simp [readItems?, hany]

/-- A spelled test is taken for itself. -/
theorem Spelled.read?_toJson {test : FieldTest} (hspelled : test.Spelled) :
    read? test.toJson = some test := by
  cases test with
  | compare comparator v => cases comparator <;> rfl
  | between low high => rfl
  | among values =>
      have hitems := readItems?_array hspelled
      have hread : read? (toJson (.among values)) = (readItems? (.array values)).map .among := rfl
      rw [hread, hitems]
      rfl
  | holdsAll values =>
      have hitems := readItems?_array hspelled
      have hread : read? (toJson (.holdsAll values)) =
        (readItems? (.array values)).map .holdsAll := rfl
      rw [hread, hitems]
      rfl
  | regex pattern options => rfl
  | exists_ => rfl
  | is v =>
      have hliteral : opensOperator v = false := hspelled
      simp [read?, toJson, hliteral]

end FieldTest

namespace Filter

/-- A filter that the store takes for itself: no field begins with a dollar sign, and its tests and
expressions are taken for themselves. -/
inductive Spelled : Filter → Prop
  | field (path : String) (test : FieldTest) (name : isMarked path = false)
      (spelled : test.Spelled) : Spelled (.field path test)
  | and (filters : List Filter) (each : ∀ f ∈ filters, Spelled f) : Spelled (.and filters)
  | or (filters : List Filter) (each : ∀ f ∈ filters, Spelled f) : Spelled (.or filters)
  | nor (filters : List Filter) (each : ∀ f ∈ filters, Spelled f) : Spelled (.nor filters)
  | expr (e : Expr) (spelled : e.Spelled) : Spelled (.expr e)

theorem toJsonAll_eq_map (fs : List Filter) : toJsonAll fs = fs.map toJson := by
  induction fs with
  | nil => rfl
  | cons f fs ih => rw [toJsonAll, ih, List.map_cons]

theorem readAll?_eq_mapM (vs : List Json) : readAll? vs = vs.mapM read? := by
  induction vs with
  | nil => rfl
  | cons v vs ih => rw [readAll?, ih, List.mapM_cons]

theorem readAll?_toJsonAll {fs : List Filter} (hread : ∀ f ∈ fs, read? f.toJson = some f) :
    readAll? (toJsonAll fs) = some fs := by
  rw [readAll?_eq_mapM, toJsonAll_eq_map]
  exact mapM_map_of_inverse hread

/-- A test stands for a field if the name of the field is no operator. -/
theorem read?_field {path : String} (hname : isMarked path = false) (v : Json) :
    read? (.object [(path, v)]) = (FieldTest.read? v).map (.field path) := by
  have hword : ∀ word, isMarked word = true → path ≠ word := by
    rintro word hword rfl
    rw [hname] at hword
    cases hword
  cases v <;>
    simp [read?, hname, hword "$expr" rfl, hword "$and" rfl, hword "$or" rfl, hword "$nor" rfl]

/-- A spelled filter is taken for itself. -/
theorem Spelled.read?_toJson {f : Filter} (hspelled : f.Spelled) : read? f.toJson = some f := by
  induction hspelled with
  | field path test name spelled =>
      rw [toJson, read?_field name, spelled.read?_toJson]
      rfl
  | and filters each ih => simp [toJson, read?, readAll?_toJsonAll ih]
  | or filters each ih => simp [toJson, read?, readAll?_toJsonAll ih]
  | nor filters each ih => simp [toJson, read?, readAll?_toJsonAll ih]
  | expr e spelled => simp [toJson, read?, spelled.read?_toJson]

/-- A filter or its negation is spelled if the filter is. -/
theorem Spelled.negateIf {f : Filter} (hspelled : f.Spelled) (negated : Bool) :
    (Filter.negateIf negated f).Spelled := by
  cases negated with
  | false => exact hspelled
  | true =>
      refine .nor [f] fun g hg => ?_
      rw [List.mem_singleton.1 hg]
      exact hspelled

/-- All of some filters are spelled if each of them is. -/
theorem Spelled.all {fs : List Filter} (hspelled : ∀ f ∈ fs, f.Spelled) :
    (Filter.all fs).Spelled := by
  unfold Filter.all
  split
  · exact hspelled _ List.mem_cons_self
  · exact .and _ hspelled

end Filter
end Listing.Document

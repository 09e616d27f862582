/-
# Filters evaluated directly

The meaning of a filter on one record, without any store: a comparison is decided on its operand and
the value of its attribute, and a logical node by its word. A record gives the value of every
column.

Only the operators that compare single values, and those that ask for a value at all, have a meaning
here; `Comparison.IsBasic` names the comparisons to which it applies.
-/
import Listing.Proofs.FilterTree
import Listing.Proofs.Semantics.Datum
import Listing.Proofs.Validity

namespace Listing

/-- The values of a record by the names of its columns. -/
abbrev Record := String → Datum

/-- What a positive operator says of a value. -/
def Operand.accepts (operand : Operand) (op : Operator) (x : Datum) : Bool :=
  match op, operand with
  | .exact, .one s => x.related Ordering.isEq s.datum
  | .gt, .one s => x.related Ordering.isGT s.datum
  | .gte, .one s => x.related Ordering.isGE s.datum
  | .lt, .one s => x.related Ordering.isLT s.datum
  | .lte, .one s => x.related Ordering.isLE s.datum
  | .range, .bounds low high =>
    x.related Ordering.isGE low.datum && x.related Ordering.isLE high.datum
  | .among, .many items => items.any fun s => x.related Ordering.isEq s.datum
  | .isNull, _ => x == .null
  | .isNotNull, _ => x != .null
  | _, _ => false

/-- What a comparison says of a record; a comparison without an operand holds of none. -/
def Comparison.accepts (c : Comparison) (resource : Resource) (record : Record) : Bool :=
  match resource.attribute? c.path.attr with
  | none => false
  | some attr => match Operand.ofComparison c attr with
    | .error _ => false
    | .ok operand =>
      c.operator.isNegated != operand.accepts c.operator.positive (record attr.columnName)

/-- How a word combines what its children say. -/
def Connective.decide : Connective → List Bool → Bool
  | .and, parts => parts.all id
  | .or, parts => parts.any id
  | .not, parts => !parts.all id

mutual
/-- What a filter says of a record. Full-text searches have no meaning of their own. -/
def Filter.accepts (resource : Resource) (record : Record) : Filter → Bool
  | .comparison c => c.accepts resource record
  | .fullText _ => false
  | .node connective children => connective.decide (Filter.acceptsEach resource record children)

/-- What several filters say of a record. -/
def Filter.acceptsEach (resource : Resource) (record : Record) : List Filter → List Bool
  | [] => []
  | f :: fs => Filter.accepts resource record f :: Filter.acceptsEach resource record fs
end

theorem Filter.acceptsEach_eq_map (resource : Resource) (record : Record) (fs : List Filter) :
    acceptsEach resource record fs = fs.map (accepts resource record) := by
  induction fs with
  | nil => rfl
  | cons f fs ih =>
      rw [acceptsEach, ih]
      rfl

/-- The operators that compare single values or ask for a value, and their negations. -/
def Operator.isBasic (op : Operator) : Bool :=
  match op.positive with
  | .exact | .gt | .gte | .lt | .lte | .range | .among | .isNull | .isNotNull => true
  | _ => false

/-- A comparison of an attribute of the listed resource itself, by a basic operator and without
functions, whose attribute is a text, a number or a truth value. Numbers are compared with
integers. -/
structure Comparison.IsBasic (c : Comparison) (resource : Resource) : Prop where
  root : c.path.relations = []
  plain : c.function = none
  operator : c.operator.isBasic = true
  kind : ∀ attr, resource.attribute? c.path.attr = some attr → attr.kind.isBasic = true
  integers : ∀ attr operand, resource.attribute? c.path.attr = some attr →
    attr.kind = .numeric → Operand.ofComparison c attr = .ok operand →
    ∀ s ∈ operand.values, ∃ n, s = .int n

/-- A leaf is a basic comparison. -/
def Filter.IsBasicLeaf (resource : Resource) : Filter → Prop
  | .comparison c => c.IsBasic resource
  | .fullText _ => False
  | .node .. => False

/-- Every attribute that is a text, a number or a truth value has a value of its kind. -/
def Record.IsTyped (record : Record) (resource : Resource) : Prop :=
  ∀ attr ∈ resource.attributes, attr.kind.isBasic = true → attr.kind.Holds (record attr.columnName)

/-- An operand of the shape that a positive operator asks for, whose values have a kind. -/
inductive Operand.Suits (kind : Kind) : Operator → Operand → Prop
  | exact (s : Scalar) (hs : s.IsBasic kind) : Suits kind .exact (.one s)
  | gt (s : Scalar) (hs : s.IsBasic kind) : Suits kind .gt (.one s)
  | gte (s : Scalar) (hs : s.IsBasic kind) : Suits kind .gte (.one s)
  | lt (s : Scalar) (hs : s.IsBasic kind) : Suits kind .lt (.one s)
  | lte (s : Scalar) (hs : s.IsBasic kind) : Suits kind .lte (.one s)
  | range (low high : Scalar) (hlow : low.IsBasic kind) (hhigh : high.IsBasic kind) :
      Suits kind .range (.bounds low high)
  | among (items : List Scalar) (hitems : ∀ s ∈ items, s.IsBasic kind) :
      Suits kind .among (.many items)
  | isNull : Suits kind .isNull .none
  | isNotNull : Suits kind .isNotNull .none

namespace Operand

/-- The operators of order and equality read one value of the kind. -/
theorem read_of_readSingle {op : Operator} {kind : Kind} {value : Json} {s : Scalar}
    (hop : op.positive ∈ [Operator.exact, .gt, .gte, .lt, .lte])
    (hread : readSingle op kind value = .ok s) : Scalar.read kind value = .ok s := by
  unfold readSingle at hread
  simp only [List.mem_cons, List.not_mem_nil, or_false] at hop
  rcases hop with hop | hop | hop | hop | hop
  all_goals
    rw [hop] at hread
    dsimp only at hread
    split at hread
    · cases hread
    · exact hread

/-- The items of a membership are values of the kind. -/
theorem items_of_readFor {op : Operator} (hop : op.positive = .among) {kind elementKind : Kind}
    {value : Json} {operand : Operand} (hread : readFor op kind elementKind value = .ok operand) :
    ∃ items, operand = .many items ∧ ∀ s ∈ items, ∃ v, Scalar.read kind v = .ok s := by
  have harity : op.arity = .list := by
    rw [← Operator.arity_positive, hop]
    rfl
  obtain ⟨given, items, _, hitems, rfl⟩ := many_of_readFor harity hread
  refine ⟨items, rfl, fun s hs => ?_⟩
  obtain ⟨v, _, hv⟩ := Result.mem_of_mapM_eq_ok hitems hs
  rw [itemKind, hop] at hv
  exact ⟨v, hv⟩

/-- What is read for a basic operator suits it. -/
theorem suits_of_readFor {op : Operator} (hop : op.isBasic = true) {kind elementKind : Kind}
    (hkind : kind.isBasic = true) {value : Json} {operand : Operand}
    (hread : readFor op kind elementKind value = .ok operand)
    (hint : kind = .numeric → ∀ s ∈ operand.values, ∃ n, s = .int n) :
    operand.Suits kind op.positive := by
  have hscalar : ∀ s ∈ operand.values, (∃ v, Scalar.read kind v = .ok s) → s.IsBasic kind := by
    rintro s hmem ⟨v, hv⟩
    exact Scalar.isBasic_of_read hkind hv fun hnumeric => hint hnumeric s hmem
  have harity := Operator.arity_positive op
  unfold Operator.isBasic at hop
  cases hpositive : op.positive
  case exact | gt | gte | lt | lte =>
    rw [hpositive] at harity
    obtain ⟨s, hs, rfl⟩ := one_of_readFor harity.symm hread
    have hv := read_of_readSingle (by rw [hpositive]; decide) hs
    have hbasic := hscalar s (by simp [values]) ⟨value, hv⟩
    constructor
    exact hbasic
  case range =>
    rw [hpositive] at harity
    obtain ⟨low, high, rfl, hlow, hhigh⟩ := bounds_of_readFor harity.symm hread
    exact .range low high (hscalar low (by simp [values]) hlow)
      (hscalar high (by simp [values]) hhigh)
  case among =>
    obtain ⟨items, rfl, hitems⟩ := items_of_readFor hpositive hread
    exact .among items fun s hs => hscalar s hs (hitems s hs)
  case isNull | isNotNull =>
    rw [hpositive] at harity
    rw [readFor, ← harity] at hread
    cases hread
    constructor
  all_goals simp [hpositive] at hop

end Operand

/-- A comparison is basic if its attribute and its operand are. -/
theorem Comparison.isBasic_of_operand {c : Comparison} {resource : Resource} (attr : Attribute)
    (operand : Operand) (hroot : c.path.relations = []) (hplain : c.function = none)
    (hop : c.operator.isBasic = true) (hattr : resource.attribute? c.path.attr = some attr)
    (hkind : attr.kind.isBasic = true) (hoperand : Operand.ofComparison c attr = .ok operand)
    (hint : attr.kind = .numeric → ∀ s ∈ operand.values, ∃ n, s = .int n) :
    c.IsBasic resource := by
  refine ⟨hroot, hplain, hop, ?_, ?_⟩
  · intro attr' hattr'
    rw [hattr] at hattr'
    cases hattr'
    exact hkind
  · intro attr' operand' hattr' hnumeric hoperand'
    rw [hattr] at hattr'
    cases hattr'
    rw [hoperand] at hoperand'
    cases hoperand'
    exact hint hnumeric

/-- The attribute and the operand of a valid basic comparison. -/
theorem Comparison.IsBasic.exists_operand {c : Comparison} {registry : Registry}
    {resource : Resource} (hbasic : c.IsBasic resource)
    (hvalid : c.validate registry resource = .ok ()) :
    ∃ attr operand, registry.locate resource c.param c.path = .ok ⟨attr, resource, []⟩ ∧
      resource.attribute? c.path.attr = some attr ∧ attr.kind.isBasic = true ∧
      Operand.ofComparison c attr = .ok operand ∧
      operand.Suits attr.kind c.operator.positive := by
  obtain ⟨located, operand, hlocate, _, hoperand⟩ := Comparison.validate_eq_ok hvalid
  have hlocate' := hlocate
  rw [Registry.locate, Registry.route, hbasic.root] at hlocate'
  have hfound : resource.attribute? c.path.attr = some located.attr ∧
      located = ⟨located.attr, resource, []⟩ := by
    simp only [Registry.walk, Route.destination, List.getLast?_nil, Option.map_none,
      Option.getD_none, bind, Except.bind] at hlocate'
    split at hlocate'
    · rename_i attr hattr
      cases hlocate'
      exact ⟨hattr, rfl⟩
    · cases hlocate'
  obtain ⟨hattr, hlocated⟩ := hfound
  have hkind := hbasic.kind located.attr hattr
  refine ⟨located.attr, operand, hlocated ▸ hlocate, hattr, hkind, hoperand, ?_⟩
  exact Operand.suits_of_readFor hbasic.operator hkind
    (Operand.readFor_of_ofComparison hbasic.plain hoperand)
    fun hnumeric => hbasic.integers located.attr operand hattr hnumeric hoperand

end Listing

/-
# The integers that statements bind

A database has integers of 64 bits with a sign. The operands of a filter are read as such integers,
an integer beyond their range is a double, and a limit of groups becomes the bound of a rank, which
is cut down to the range. So all integers that the count and the totals of a request bind are in the
range of the database. The size of a page and the number of rows to skip are bound as they were
read, as numbers without a sign: they are in the range exactly if the request, or what the resource
makes of it, says so.
-/
import Listing.Compiled
import Listing.Proofs.Compiling
import Listing.Proofs.ReadingByKey
import Listing.Proofs.StatementScope
import Listing.Proofs.TypedValues

namespace Listing

/-- The integers that a value is made of. A document is no integer, whatever it holds. -/
def Scalar.integers : Scalar → List Int
  | .int n => [n]
  | _ => []

namespace Sql

def Value.integers : Value → List Int
  | .scalar s => s.integers
  | .array _ items => items.flatMap Scalar.integers
  | .word n => [n]
  | .natural n => [n]

/-- The integers among the values of a statement that is sent. -/
def Prepared.integers (prepared : Prepared) : List Int :=
  prepared.values.flatMap Value.integers

/-- All integers that a statement binds are in the range of the database. -/
def Prepared.Fits (prepared : Prepared) : Prop :=
  ∀ n ∈ prepared.integers, Number.fitsSigned n = true

instance (prepared : Prepared) : Decidable prepared.Fits :=
  inferInstanceAs (Decidable (∀ n ∈ prepared.integers, _))

/-- All integers of a value are in the range of the database. -/
def Value.Fits (v : Value) : Prop := ∀ n ∈ v.integers, Number.fitsSigned n = true

instance (v : Value) : Decidable v.Fits := inferInstanceAs (Decidable (∀ n ∈ v.integers, _))

/-! ### Operands -/

section Operands

variable {s : Scalar} {operand : Operand}

/-- A value of a kind is in the range if it is an integer. -/
theorem fits_of_isOf {kind : Kind} (hs : s.isOf kind = true) : Value.Fits (.scalar s) := by
  intro n hn
  cases s with
  | int m =>
      rw [List.mem_singleton.1 hn]
      cases kind <;> first | exact hs | cases hs
  | _ => cases hn

theorem fits_ofJson (value : Json) : Value.Fits (.scalar (.ofJson value)) := by
  by_cases hvalue : value = .null
  · subst hvalue
    exact fun _ hn => nomatch hn
  · exact fits_of_isOf (Scalar.isOf_ofJson hvalue)

/-- An integer that JSON holds is in the range if it is taken for a number with a sign. -/
theorem fitsSigned_of_asSigned? {value : Json} {n : Int} (hread : value.asSigned? = some n) :
    Number.fitsSigned n = true := by
  unfold Json.asSigned? at hread
  split at hread
  · obtain ⟨hfits, hsame⟩ := Option.ite_none_right_eq_some.1 hread
    exact Option.some.inj hsame ▸ hfits
  · cases hread

theorem fits_of_readInteger {value : Json} (hread : Scalar.readInteger value = .ok s) :
    Value.Fits (.scalar s) := by
  unfold Scalar.readInteger at hread
  dsimp only at hread
  split at hread
  · rename_i n hnumber
    cases hread
    intro m hm
    rw [List.mem_singleton.1 hm]
    split at hnumber
    · exact Number.fitsSigned_of_readSigned? hnumber
    · exact fitsSigned_of_asSigned? hnumber
  · cases hread

theorem fits_of_readSingle {op : Operator} {kind : Kind} {value : Json}
    (hread : Operand.readSingle op kind value = .ok s) : Value.Fits (.scalar s) := by
  have hvalue : ∀ {kind}, Scalar.read kind value = .ok s → Value.Fits (.scalar s) :=
    fun hread => fits_of_isOf (Scalar.isOf_of_read hread)
  unfold Operand.readSingle at hread
  generalize op.positive = positive at hread
  cases positive
  case year | month | day => exact fits_of_readInteger hread
  case exact | gt | gte | lt | lte =>
    dsimp only at hread
    split at hread
    · cases hread
    · exact hvalue hread
  all_goals exact hvalue hread

theorem fits_of_readFor {op : Operator} {kind elementKind : Kind} {value : Json}
    (hread : Operand.readFor op kind elementKind value = .ok operand) :
    ∀ s ∈ operand.values, Value.Fits (.scalar s) := by
  unfold Operand.readFor at hread
  split at hread
  · cases hread
    exact fun _ hs => nomatch hs
  · cases hread
    exact fun _ hs => nomatch hs
  · obtain ⟨items, _, hrest⟩ := Result.bind_eq_ok.1 hread
    split at hrest
    · obtain ⟨low, hlow, hrest⟩ := Result.bind_eq_ok.1 hrest
      obtain ⟨high, hhigh, hpure⟩ := Result.bind_eq_ok.1 hrest
      cases hpure
      have hlow := fits_of_isOf (Scalar.isOf_of_read hlow)
      have hhigh := fits_of_isOf (Scalar.isOf_of_read hhigh)
      unfold Operand.between
      split <;> simp [Operand.values, hlow, hhigh]
    · cases hrest
  · obtain ⟨items, _, hrest⟩ := Result.bind_eq_ok.1 hread
    obtain ⟨values, hvalues, hpure⟩ := Result.bind_eq_ok.1 hrest
    cases hpure
    intro s hs
    obtain ⟨item, _, hitem⟩ := Result.mem_of_mapM_eq_ok hvalues hs
    exact fits_of_isOf (Scalar.isOf_of_read hitem)
  · obtain ⟨s, hs, hpure⟩ := Result.bind_eq_ok.1 hread
    cases hpure
    simpa [Operand.values] using fits_of_readSingle hs

theorem fits_arguments (value : Json) :
    ∀ s ∈ (Operand.arguments value).values, Value.Fits (.scalar s) := by
  unfold Operand.arguments
  split
  · exact fun _ hs => nomatch hs
  · intro s hs
    obtain ⟨item, _, rfl⟩ := List.mem_map.1 hs
    exact fits_ofJson item
  · simpa [Operand.values] using fits_ofJson value

/-- Integers of operands are in the range. -/
theorem fits_of_ofComparison {c : Comparison} {attr : Attribute}
    (hoperand : Operand.ofComparison c attr = .ok operand) :
    ∀ s ∈ operand.values, Value.Fits (.scalar s) := by
  unfold Operand.ofComparison at hoperand
  dsimp only at hoperand
  split at hoperand
  · rename_i hread
    cases hoperand
    split at hread
    · exact fits_of_readFor hread
    · split at hread
      · cases hread
        exact fun _ hs => nomatch hs
      · split at hread
        · exact fits_of_readFor hread
        · cases hread
          exact fits_arguments c.value
  · cases hoperand

/-- The array of some values is made of these values, or of texts. -/
theorem fits_ofItems {items : List Scalar} (hitems : ∀ s ∈ items, Value.Fits (.scalar s)) :
    Value.Fits (.ofItems items) := by
  unfold Value.ofItems
  cases items with
  | nil => exact fun _ hn => nomatch hn
  | cons first rest =>
      dsimp only
      split
      · intro n hn
        obtain ⟨s, hs, hn⟩ := List.mem_flatMap.1 hn
        exact hitems s hs n hn
      · intro n hn
        obtain ⟨s, hs, hn⟩ := List.mem_flatMap.1 hn
        obtain ⟨item, _, rfl⟩ := List.mem_map.1 hs
        cases hn

end Operands

/-! ### Expressions -/

/-- All values of a fragment are in the range. -/
def Fragment.Fits (f : Fragment) : Prop := ∀ v, .value v ∈ f → v.Fits

namespace Fragment

variable {f g : Fragment}

@[simp]
theorem fits_nil : Fits [] := fun _ hv => nomatch hv

@[simp]
theorem fits_text (s : String) (f : Fragment) : Fits (.text s :: f) ↔ f.Fits := by
  simp [Fits]

@[simp]
theorem fits_value (v : Value) (f : Fragment) : Fits (.value v :: f) ↔ v.Fits ∧ f.Fits := by
  simp [Fits]

@[simp]
theorem fits_append : Fits (f ++ g) ↔ f.Fits ∧ g.Fits := by
  simp only [Fits, List.mem_append, or_imp, forall_and]

@[simp]
theorem fits_bracketed : f.bracketed.Fits ↔ f.Fits := by
  simp [bracketed]

@[simp]
theorem fits_join (separator : String) (fs : List Fragment) :
    (join separator fs).Fits ↔ ∀ f ∈ fs, f.Fits := by
  fun_induction join separator fs with
  | case1 => simp
  | case2 f => simp
  | case3 f fs hne ih => simp [ih]

@[simp]
theorem fits_flatMap {α : Type} (write : α → Fragment) (xs : List α) :
    Fits (xs.flatMap write) ↔ ∀ x ∈ xs, (write x).Fits := by
  induction xs with
  | nil => simp
  | cons x xs ih => simp [ih]

end Fragment

namespace Expr

variable {e : Expr} {f : Fragment}

/-- Whatever the dialect, all values of the expression are in the range. -/
def Fits (e : Expr) : Prop := ∀ d, (e.write d).Fits

@[simp]
theorem fits_asOperand : (e.asOperand f).Fits ↔ f.Fits := by
  unfold asOperand
  split <;> simp

@[simp]
theorem fits_asClause : (e.asClause f).Fits ↔ f.Fits := by
  unfold asClause
  split <;> simp

@[simp]
theorem fits_asLeftOfAnd : (e.asLeftOfAnd f).Fits ↔ f.Fits := by
  cases e <;> simp [asLeftOfAnd]

@[simp]
theorem fits_asLeftOfOr : (e.asLeftOfOr f).Fits ↔ f.Fits := by
  cases e <;> simp [asLeftOfOr]

theorem writeAll_eq_map (d : Dialect) (es : List Expr) : writeAll d es = es.map (write d) := by
  induction es with
  | nil => rfl
  | cons e es ih => rw [writeAll, ih, List.map_cons]

/-- Into a template go its arguments, and texts. -/
theorem fits_fillTemplate (d : Dialect) (text : String) {arguments : List Fragment}
    (harguments : ∀ argument ∈ arguments, argument.Fits) :
    (fillTemplate d text arguments).Fits := by
  unfold fillTemplate
  rw [Fragment.fits_flatMap]
  intro part _
  cases part with
  | text c => simp
  | hole position =>
      cases hargument : arguments[position]? with
      | none => simp [hargument]
      | some argument => simpa [hargument] using harguments _ (List.mem_of_getElem? hargument)

theorem fits_column (table name : String) : (column table name).Fits := by
  intro d
  simp [write]

/-- The values of an expression are those of its parts, and two numbers that make a test fail. -/
theorem hereditary_fits : Hereditary (fun _ => True) Fits Value.Fits where
  value hv d := by simpa [write] using hv
  call harguments d := by
    simpa [write, writeAll_eq_map] using fun e he => harguments e he d
  countRows d := by simp [write]
  countDistinct he d := by simpa [write] using he d
  compare he hv d := by simpa [write] using ⟨he d, hv⟩
  between he hlow hhigh d := by simpa [write] using ⟨he d, hlow, hhigh⟩
  among {e values} he hvalues d := by
    cases values with
    | nil =>
        -- Nothing is one of no values, which is written as one number being equal to another.
        have hone : Value.Fits (.word 1) := by decide
        have htwo : Value.Fits (.word 2) := by decide
        simp [write, hone, htwo]
    | cons v values => simpa [write, he d] using hvalues
  like {e pattern} he d := by
    have hpattern : Value.Fits (.scalar (.text pattern)) := fun _ hn => nomatch hn
    simpa [write, hpattern] using he d
  isNull he d := by simpa [write] using he d
  isNotNull he d := by simpa [write] using he d
  template {text arguments} _ harguments d := by
    rw [write, writeAll_eq_map]
    exact fits_fillTemplate d text (by simpa using fun e he => harguments e he d)
  and hleft hright d := by simpa [write] using ⟨hleft d, hright d⟩
  or hleft hright d := by simpa [write] using ⟨hleft d, hright d⟩
  not he d := by simpa [write] using he d
  truth b d := by cases b <;> simp [write]
  null := fun _ hn => nomatch hn
  text _ := fun _ hn => nomatch hn
  items := fits_ofItems
  operand := fits_of_ofComparison

end Expr

/-! ### Statements -/

section Statements

variable {t : Target} {selection : Selection}

theorem fits_writeKey (d : Dialect) (table : String) (columns : List String) :
    (writeKey d table columns).Fits := by
  unfold writeKey
  split <;> simp

/-- What restricts the rows of a request is made of columns and operands. -/
theorem fits_restriction {filter : Option Filter}
    (hselection : t.selection filter = .ok selection) (d : Dialect) :
    (selection.restriction.write d).Fits := by
  obtain ⟨condition, hcondition, rfl⟩ := t.selection_eq_ok hselection
  have hfits : ∀ e ∈ condition, e.Fits := by
    intro e he
    cases filter with
    | none =>
        cases hcondition
        cases he
    | some f =>
        obtain ⟨e', he', hpure⟩ := Result.bind_eq_ok.1 hcondition
        cases hpure
        cases he
        exact Expr.hereditary_fits.condition he' (fun _ _ => trivial) (Expr.fits_column _)
          fun _ _ => Expr.fits_column _
  have hwhere : (writeWhere d condition).Fits := by
    cases condition with
    | none => exact Fragment.fits_nil
    | some e => simpa [writeWhere] using hfits e rfl d
  unfold Target.restrictionOf
  split
  · simpa [Restriction.write, KeyQuery.write, fits_writeKey, Join.write] using hwhere
  · cases condition with
    | none => exact Fragment.fits_nil
    | some e => exact hwhere

theorem fits_orderTerm {item : OrderItem} {term : OrderTerm} (hterm : t.orderTerm item = .ok term)
    (d : Dialect) : (term.write d).Fits := by
  obtain ⟨⟨name, hexpr⟩, -⟩ := t.orderTerm_eq_ok hterm
  simpa [OrderTerm.write, hexpr] using Expr.fits_column _ _ d

theorem fits_writeNumber (clause : String) (n : Option Nat) :
    (writeNumber clause n).Fits ↔ ∀ k ∈ n, Number.fitsSigned k = true := by
  cases n <;> simp [writeNumber, Value.Fits, Value.integers]

theorem fits_writeOrderBy {d : Dialect} {terms : List OrderTerm}
    (hterms : ∀ term ∈ terms, (term.write d).Fits) : (writeOrderBy d terms).Fits := by
  unfold writeOrderBy
  split
  · exact Fragment.fits_nil
  · simpa using hterms

/-- The expressions of a select bind values in the range. -/
structure Select.PartsFit (d : Dialect) (s : Select) : Prop where
  columns : ∀ column ∈ s.columns, (column.write d).Fits
  restriction : (s.restriction.write d).Fits
  groupBy : ∀ e ∈ s.groupBy, e.Fits
  orderBy : ∀ term ∈ s.orderBy, (term.write d).Fits

/-- Besides the values of its expressions, a select binds its limit and its offset. -/
theorem fits_select {d : Dialect} {s : Select} (hparts : s.PartsFit d) :
    (s.write d).Fits ↔ (∀ n ∈ s.limit, Number.fitsSigned n = true) ∧
      ∀ n ∈ s.offset, Number.fitsSigned n = true := by
  have hgroups : Fragment.Fits (if s.groupBy.isEmpty then []
      else .text " GROUP BY " :: Fragment.join ", " (s.groupBy.map (·.write d))) := by
    split
    · exact Fragment.fits_nil
    · simpa using fun e he => hparts.groupBy e he d
  have hcolumns := hparts.columns
  have horder := fits_writeOrderBy hparts.orderBy
  simp only [Select.write, Fragment.fits_append, Fragment.fits_text, Fragment.fits_join,
    Fragment.fits_flatMap, Join.write, Fragment.fits_nil, fits_writeNumber, hgroups, horder,
    hparts.restriction, List.forall_mem_map, and_true, implies_true]
  exact ⟨fun h => ⟨h.1.2, h.2⟩, fun h => ⟨⟨hcolumns, h.1⟩, h.2⟩⟩

/-- A select that keeps all rows binds the values of its expressions only. -/
theorem fits_of_partsFit {d : Dialect} {s : Select} (hparts : s.PartsFit d)
    (hlimit : s.limit = none) (hoffset : s.offset = none) : (s.write d).Fits :=
  (fits_select hparts).2 (by simp [hlimit, hoffset])

/-- The page of a request binds the operands of its filter, its limit and its offset. -/
theorem fits_page {request : Request} {terms : List OrderTerm}
    (hselection : t.selection request.filter = .ok selection)
    (horder : request.order.mapM t.orderTerm = .ok terms) (d : Dialect) :
    ((t.page selection request terms).write d).Fits ↔
      (∀ limit ∈ request.paging.limit, Number.fitsSigned limit = true) ∧
        Number.fitsSigned request.paging.offset = true := by
  have hparts : (t.page selection request terms).PartsFit d := {
    columns := by simp [Target.page, Projection.write]
    restriction := fits_restriction hselection d
    groupBy := fun _ he => nomatch he
    orderBy := by
      intro term hterm
      dsimp only [Target.page] at hterm
      split at hterm
      · obtain ⟨column, _, rfl⟩ := List.mem_map.1 hterm
        simpa [OrderTerm.write] using Expr.fits_column _ _ d
      · obtain ⟨item, _, hitem⟩ := Result.mem_of_mapM_eq_ok horder hterm
        exact fits_orderTerm hitem d }
  have hskip : (∀ n ∈ (t.page selection request terms).offset, Number.fitsSigned n = true) ↔
      Number.fitsSigned request.paging.offset = true := by
    dsimp only [Target.page]
    split
    · rename_i hzero
      simp only [hzero, Option.not_mem_none, false_implies, implies_true, true_iff]
      decide
    · simp
  rw [fits_select hparts, hskip]
  rfl

/-- The count of a request binds the operands of its filter. -/
theorem fits_count {filter : Option Filter} (hselection : t.selection filter = .ok selection)
    (d : Dialect) : ((t.count selection).write d).Fits :=
  fits_of_partsFit {
    columns := by simp [Target.count, Projection.write, Expr.write]
    restriction := fits_restriction hselection d
    groupBy := fun _ he => nomatch he
    orderBy := fun _ hterm => nomatch hterm } rfl rfl

/-- A term of the order of groups binds what stands for its label. -/
theorem fits_groupOrder {dimensions metrics : List Labelled} {expr : String → Expr}
    (hexpr : ∀ label, (expr label).Fits) (d : Dialect) :
    ∀ term ∈ groupOrder dimensions metrics expr, (term.write d).Fits := by
  intro term hterm
  obtain ⟨label, _, hlabel⟩ := label_of_mem_groupOrder hterm
  simpa [OrderTerm.write, hlabel] using hexpr label d

/-- The bound of a rank is in the range, whatever limit there is on groups. -/
theorem fitsSigned_bound (limit : Nat) : Number.fitsSigned (min limit maxBound : Nat) = true := by
  have hbound : min limit maxBound ≤ maxBound := Nat.min_le_right limit maxBound
  have hmax : maxBound + 1 = Number.twoTo 63 := by decide
  generalize min limit maxBound = bound at hbound ⊢
  rw [Number.fitsSigned, ← hmax]
  simp only [Bool.and_eq_true, decide_eq_true_eq]
  omega

/-- Totals bind what their select binds, and the bound of a rank. -/
theorem fits_totalsStatement {grouped : Select} {dimensions metrics : List Labelled} {d : Dialect}
    (hparts : grouped.PartsFit d) (hcolumns : ∀ column ∈ dimensions ++ metrics, column.2.Fits)
    (hlimit : grouped.limit = none) (hoffset : grouped.offset = none) (limit : Option Nat) :
    ((totalsStatement grouped dimensions metrics limit).write d).Fits := by
  unfold totalsStatement
  split
  · rename_i n _ _
    -- The limit becomes a bound in a select around the one that ranks.
    have hrank := Expr.hereditary_fits.rankExpr trivial hcolumns
    have hinner : (Select.write d { grouped with
        columns := grouped.columns ++
          [.named (rankExpr dimensions.dropLast metrics) rankLabel] }).Fits :=
      fits_of_partsFit { hparts with
        columns := List.forall_mem_append.2
          ⟨hparts.columns, by simpa [Projection.write] using hrank d⟩ } hlimit hoffset
    have hbound : Value.Fits (.scalar (.int (min n maxBound : Nat))) := fun bound hmem =>
      List.mem_singleton.1 hmem ▸ fitsSigned_bound n
    have hcompare : (Expr.compare .le (.column groupedAlias rankLabel)
        (.scalar (.int (min n maxBound : Nat)))).Fits :=
      Expr.hereditary_fits.compare (Expr.fits_column _ _) hbound
    have horder : ∀ term ∈ groupOrder dimensions metrics fun label => .column groupedAlias label,
        (term.write d).Fits := fits_groupOrder (Expr.fits_column groupedAlias) d
    simpa [Statement.write, Ranked.write, hinner, fits_writeOrderBy horder] using hcompare d
  · have hterm (label : String) :
        (((dimensions ++ metrics).lookup label).getD (.ownColumn label)).Fits := by
      cases hfound : (dimensions ++ metrics).lookup label with
      | none => exact fun d => by simp [Expr.write]
      | some e => exact hcolumns (label, e) (mem_of_lookup hfound)
    exact fits_of_partsFit { hparts with orderBy := fits_groupOrder hterm d } hlimit hoffset

/-- Totals bind the operands of the filter and the bound of a rank. -/
theorem fits_totals {filter : Option Filter} {a : Aggregate} {q : TotalsQuery}
    (hselection : t.selection filter = .ok selection)
    (htotals : t.totals selection a = .ok (some q)) (d : Dialect) :
    (q.statement.write d).Fits := by
  obtain ⟨dimensions, arguments, hdimensions, harguments, rfl⟩ := t.totals_eq_some htotals
  have hcolumns := t.labelled_of_hereditary Expr.hereditary_fits Expr.fits_column hdimensions
    harguments
  refine fits_totalsStatement ⟨fun column hcolumn => ?_, fits_restriction hselection d,
    fun e he => ?_, by simp [Target.grouped]⟩ hcolumns rfl rfl _
  · obtain ⟨labelled, hlabelled, rfl⟩ := List.mem_map.1 hcolumn
    simpa [Projection.write] using hcolumns labelled hlabelled d
  · obtain ⟨column, hcolumn, rfl⟩ := List.mem_map.1 he
    exact hcolumns column (List.mem_append_left _ hcolumn)

/-- What is sent of a statement is in the range if what is written of it is. -/
theorem fits_prepare (d : Dialect) (s : Statement) : (s.prepare d).Fits ↔ (s.write d).Fits := by
  have hvalues (v : Value) : v ∈ (s.prepare d).values ↔ .value v ∈ s.write d := by
    show v ∈ (s.write d).values ↔ _
    unfold Fragment.values
    rw [List.mem_filterMap]
    constructor
    · rintro ⟨piece, hpiece, hsome⟩
      cases piece with
      | text s => cases hsome
      | value w => cases hsome; exact hpiece
    · exact fun hv => ⟨.value v, hv, rfl⟩
  simp only [Prepared.Fits, Prepared.integers, List.forall_mem_flatMap, hvalues, Fragment.Fits,
    Value.Fits]

/-- The integers that the statements of a request bind are in the range, but for the limit and the
offset of its page. -/
theorem fits_statements {request : Request} {query : Query}
    (hcompile : t.compile request = .ok query) :
    (∀ s ∈ query.count, ((Statement.select s).prepare query.dialect).Fits) ∧
      (∀ q ∈ query.totals, (q.statement.prepare query.dialect).Fits) ∧
      (((Statement.select query.page).prepare query.dialect).Fits ↔
        (∀ limit ∈ request.paging.limit, Number.fitsSigned limit = true) ∧
          Number.fitsSigned request.paging.offset = true) := by
  obtain ⟨selection, terms, totals, _, hselection, horder, htotals, _, rfl⟩ :=
    t.compile_eq_ok_iff.1 hcompile
  simp only [fits_prepare]
  refine ⟨fun s hs => ?_, fun q hq => ?_, fits_page hselection horder t.dialect⟩
  · split at hs
    · cases hs
      exact fits_count hselection t.dialect
    · cases hs
  · cases hq
    exact fits_totals hselection htotals t.dialect

end Statements

end Sql

/-- The query for a database, if a request is compiled to one. -/
def Compiled.sqlQuery? : Compiled → Option Sql.Query
  | .relational query => some query
  | .document _ => none
  | .searchIndex _ => none

namespace Entry

variable {e : Entry} {registry : Registry} {params : Params}

/-- What can be decided of the query for a database can be found by compiling the request. -/
theorem exists_query_of_any (p : Sql.Query → Prop) [DecidablePred p]
    (hany : ((e.compile registry params).toOption.bind Compiled.sqlQuery?).any p = true) :
    ∃ query, e.compile registry params = .ok (.relational query) ∧ p query := by
  cases hcompile : e.compile registry params with
  | error refusal =>
      rw [hcompile] at hany
      cases hany
  | ok compiled =>
      rw [hcompile] at hany
      cases compiled with
      | relational query => exact ⟨query, rfl, of_decide_eq_true hany⟩
      | document _ | searchIndex _ => cases hany

/-- Whatever a request says, all integers that its count and its totals bind are in the range of
the database. Those of its page are exactly if its limit and its offset are: the limit after
defaults and the largest size of a page. -/
theorem integers_fit_iff {query : Sql.Query}
    (hcompile : e.compile registry params = .ok (.relational query)) :
    ∃ limit offset, Paging.readLimit (params.get? Param.limit) = .ok limit ∧
      Paging.readOffset (params.get? Param.offset) = .ok offset ∧
      (∀ s ∈ query.count, ((Sql.Statement.select s).prepare query.dialect).Fits) ∧
      (∀ q ∈ query.totals, (q.statement.prepare query.dialect).Fits) ∧
      (((Sql.Statement.select query.page).prepare query.dialect).Fits ↔
        (∀ n ∈ Paging.effectiveLimit limit e.resource registry.options,
          Number.fitsSigned n = true) ∧ Number.fitsSigned offset = true) := by
  obtain ⟨request, hread, hrest⟩ := Result.bind_eq_ok.1 hcompile
  obtain ⟨_, _, hstore⟩ := Result.bind_eq_ok.1 hrest
  obtain ⟨document, simple, hread⟩ := Request.ofParams_eq_ok_iff.1 hread
  obtain ⟨limit, offset, hlimit, hoffset, hlimited, hskipped⟩ := Paging.eq_of_read hread.paging
  unfold Backend.compile at hstore
  split at hstore
  · obtain ⟨query, hquery, hsame⟩ := Result.map_eq_ok.1 hstore
    cases hsame
    have hfits := Sql.fits_statements hquery
    rw [hlimited, hskipped] at hfits
    exact ⟨limit, offset, hlimit, hoffset, hfits⟩
  · obtain ⟨_, _, hsame⟩ := Result.map_eq_ok.1 hstore
    cases hsame
  · obtain ⟨_, _, hsame⟩ := Result.map_eq_ok.1 hstore
    cases hsame

end Entry

/-! A library has more books than a page shows, and asks for a page of its own choice. -/

namespace Library

def book : Resource where
  name := "book"
  storage := "books"
  attributes := [{ name := "title", kind := .string }, { name := "pages", kind := .numeric }]

def entry : Entry := ⟨book, .relational .postgres []⟩

def registry : Registry where
  entries := [entry]

/-- A page, a count and totals of long books, asked for by very large numbers. -/
def longBooks : Params := ⟨[("limit", "9223372036854775807"), ("offset", "40"),
  ("pages__gt", "9223372036854775808"), ("total_count", "true"), ("totals", "count"),
  ("group_by", "title"), ("group_limit", "18446744073709551615")]⟩

/-- The largest limit in the range is bound as it is, and a larger limit of groups is cut down. -/
theorem integers_fit_iff_longBooks :
    ∃ query count totals, entry.compile registry longBooks = .ok (.relational query) ∧
      query.count = some count ∧ query.totals = some totals ∧
      ((Sql.Statement.select query.page).prepare query.dialect).Fits ∧
      ((Sql.Statement.select count).prepare query.dialect).Fits ∧
      (totals.statement.prepare query.dialect).Fits := by
  obtain ⟨query, hcompile, hparts⟩ : ∃ query, entry.compile registry longBooks =
      .ok (.relational query) ∧ query.count.isSome ∧ query.totals.isSome :=
    Entry.exists_query_of_any (fun query => query.count.isSome ∧ query.totals.isSome)
      (by decide +kernel)
  obtain ⟨count, hcount⟩ := Option.isSome_iff_exists.1 hparts.1
  obtain ⟨totals, htotals⟩ := Option.isSome_iff_exists.1 hparts.2
  obtain ⟨limit, offset, hlimit, hoffset, hcounted, htotalled, hpage⟩ :=
    Entry.integers_fit_iff hcompile
  have hread : Paging.readLimit (longBooks.get? Param.limit) = .ok (some 9223372036854775807) :=
    Result.toOption_eq_some.1 (by decide +kernel)
  have hskip : Paging.readOffset (longBooks.get? Param.offset) = .ok 40 :=
    Result.toOption_eq_some.1 (by decide +kernel)
  rw [← Except.ok.inj (hread.symm.trans hlimit), ← Except.ok.inj (hskip.symm.trans hoffset)]
    at hpage
  exact ⟨query, count, totals, hcompile, hcount, htotals, hpage.2 (by decide +kernel),
    hcounted count hcount, htotalled totals htotals⟩

/-- A page of one more book than that is asked for by a number that the database does not have. -/
theorem page_binds_beyond_range :
    ∃ query, entry.compile registry ⟨[("limit", "9223372036854775808")]⟩ =
        .ok (.relational query) ∧
      ((Sql.Statement.select query.page).prepare query.dialect).integers =
        [9223372036854775808] ∧
      ¬ ((Sql.Statement.select query.page).prepare query.dialect).Fits :=
  Entry.exists_query_of_any (fun query =>
    ((Sql.Statement.select query.page).prepare query.dialect).integers = [9223372036854775808] ∧
      ¬ ((Sql.Statement.select query.page).prepare query.dialect).Fits) (by decide +kernel)

end Library
end Listing

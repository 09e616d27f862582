/-
# The templates of a query

All templates that the statements of a query have take the expressions that they are given, but for
those of a text search on Postgres, in which the configured language is quoted: they do exactly if
the language can stand in quotes. A template that takes its expressions is written as its pieces
with the expressions between them, in their order, and none of them is looked for behind the last
one.
-/
import Listing.Proofs.BoundIntegers
import Listing.Proofs.PhraseSearch
import Listing.Proofs.TakenTemplates
import Listing.Sql.Filling

namespace Listing

/-- A request searches in a text if its filter does. -/
def Request.SearchesText (request : Request) : Prop := ∃ f ∈ request.filter, f.SearchesText

namespace Sql

open Template

/-! ### Filling templates -/

/-- Pieces of text with expressions between them. -/
def weave : List (List Char) → List Fragment → Fragment
  | [], _ => []
  | piece :: _, [] => piece.map fun c => .text (String.singleton c)
  | piece :: pieces, argument :: arguments =>
    piece.map (fun c => .text (String.singleton c)) ++ argument ++ weave pieces arguments

/-- What is written for the part of a template. -/
def writePart (arguments : List Fragment) : Part → Fragment
  | .text c => [.text (String.singleton c)]
  | .hole position => arguments[position]?.getD []

theorem flatMap_writePart_text (arguments : List Fragment) (piece : List Char) :
    (piece.map Part.text).flatMap (writePart arguments) =
      piece.map fun c => .text (String.singleton c) := by
  rw [List.flatMap_map]
  exact List.flatMap_pure_eq_map _ piece

/-- The holes from a position on are filled with the expressions from there on. -/
theorem flatMap_spread {pieces : List (List Char)} {arguments : List Fragment}
    (hlength : pieces.length = arguments.length + 1) (before : List Fragment) :
    (spread before.length pieces).flatMap (writePart (before ++ arguments)) =
      weave pieces arguments := by
  induction arguments generalizing pieces before with
  | nil =>
      obtain ⟨piece, rfl⟩ := List.length_eq_one_iff.1 hlength
      exact flatMap_writePart_text _ piece
  | cons argument arguments ih =>
      obtain ⟨piece, next, pieces, rfl⟩ : ∃ piece next more, pieces = piece :: next :: more := by
        match pieces, hlength with
        | piece :: next :: more, _ => exact ⟨piece, next, more, rfl⟩
      have hrest := ih (Nat.succ.inj hlength) (before ++ [argument])
      rw [List.length_append, List.length_singleton, List.append_assoc, List.singleton_append]
        at hrest
      rw [spread_cons_cons, List.flatMap_append, flatMap_writePart_text, List.flatMap_cons, hrest]
      simp [weave, writePart]

section

variable {d : Dialect} {text : String} {count : Nat}

/-- A template that takes its expressions is written with them between its pieces, in their
order. -/
theorem Template.Takes.fillTemplate_eq (htakes : Takes d text count) {arguments : List Fragment}
    (hlength : arguments.length = count) :
    Expr.fillTemplate d text arguments = weave (cut text.toList) arguments := by
  have hfilled := flatMap_spread (htakes.holes.trans (by rw [hlength])) []
  rw [List.nil_append, List.length_nil, ← htakes.read] at hfilled
  exact hfilled

theorem position_lt_of_mem_spread {pieces : List (List Char)} {start position : Nat}
    (hmem : .hole position ∈ spread start pieces) : position + 1 < start + pieces.length := by
  induction pieces generalizing start with
  | nil => cases hmem
  | cons piece pieces ih =>
      cases pieces with
      | nil => simp [spread] at hmem
      | cons next pieces =>
          rw [spread_cons_cons] at hmem
          rcases List.mem_append.1 hmem with htext | hhole
          · simp at htext
          · rcases List.mem_cons.1 hhole with hfirst | hlater
            · cases hfirst
              simp
            · have hlast := ih hlater
              rw [List.length_cons]
              omega

/-- It looks for no expression behind the last one. -/
theorem Template.Takes.isFilled (htakes : Takes d text count) :
    TemplateUse.isFilled d ⟨text, count⟩ = true := by
  refine List.all_eq_true.2 fun part hpart => ?_
  cases part with
  | text c => rfl
  | hole position =>
      rw [htakes.read] at hpart
      have hposition := position_lt_of_mem_spread hpart
      rw [htakes.holes] at hposition
      simp
      omega

end

namespace Expr

variable {d : Dialect}

/-- All templates in an expression take the expressions that they are given. -/
def Takes (d : Dialect) (e : Expr) : Prop :=
  ∀ use ∈ e.templates, Template.Takes d use.text use.count

theorem templatesOf_eq_flatMap (es : List Expr) : templatesOf es = es.flatMap templates := by
  induction es with
  | nil => rfl
  | cons e es ih => rw [templatesOf, List.flatMap_cons, ih]

theorem takes_of_templatesOf {es : List Expr} (hes : ∀ e ∈ es, e.Takes d) :
    ∀ use ∈ templatesOf es, Template.Takes d use.text use.count := by
  rw [templatesOf_eq_flatMap]
  intro use huse
  obtain ⟨e, he, huse⟩ := List.mem_flatMap.1 huse
  exact hes e he use huse

/-- What has no templates takes everything. -/
theorem takes_of_templates_eq_nil {e : Expr} (hnone : e.templates = []) : e.Takes d := by
  intro use huse
  rw [hnone] at huse
  cases huse

/-- The templates of an expression are those of its parts and the one that it may be itself. -/
theorem hereditary_takes (d : Dialect) :
    Hereditary (TakesArguments d) (Takes d) fun _ => True where
  value _ := takes_of_templates_eq_nil rfl
  call harguments := takes_of_templatesOf harguments
  countRows := takes_of_templates_eq_nil rfl
  countDistinct he := he
  compare he _ := he
  between he _ _ := he
  among he _ := he
  like he := he
  isNull he := he
  isNotNull he := he
  template hwritten harguments :=
    List.forall_mem_cons.2 ⟨hwritten, takes_of_templatesOf harguments⟩
  and hleft hright := List.forall_mem_append.2 ⟨hleft, hright⟩
  or hleft hright := List.forall_mem_append.2 ⟨hleft, hright⟩
  not he := he
  truth _ := takes_of_templates_eq_nil rfl
  null := trivial
  text _ := trivial
  items _ := trivial
  operand _ _ _ := trivial

theorem takes_column (table name : String) : (column table name).Takes d :=
  takes_of_templates_eq_nil rfl

theorem Takes.takesArguments {e : Expr} (htakes : e.Takes d) : e.TakesArguments d := by
  cases e with
  | template text arguments => exact htakes _ List.mem_cons_self
  | _ => trivial

/-- A chain of expressions takes what its links take. -/
theorem takes_foldl_iff {link : Expr → Expr → Expr}
    (hlink : ∀ e e', (link e e').Takes d ↔ e.Takes d ∧ e'.Takes d) (e : Expr) (es : List Expr) :
    (es.foldl link e).Takes d ↔ e.Takes d ∧ ∀ e' ∈ es, e'.Takes d := by
  induction es generalizing e with
  | nil => simp
  | cons e' es ih => rw [List.foldl_cons, ih, hlink, List.forall_mem_cons, and_assoc]

theorem takes_and_iff (e e' : Expr) : (Expr.and e e').Takes d ↔ e.Takes d ∧ e'.Takes d :=
  List.forall_mem_append

theorem takes_or_iff (e e' : Expr) : (Expr.or e e').Takes d ↔ e.Takes d ∧ e'.Takes d :=
  List.forall_mem_append

theorem takes_all_iff (es : List Expr) : (Expr.all es).Takes d ↔ ∀ e ∈ es, e.Takes d := by
  cases es with
  | nil => exact iff_of_true (takes_of_templates_eq_nil rfl) nofun
  | cons e es =>
      rw [Expr.all, takes_foldl_iff takes_and_iff, List.forall_mem_cons]

theorem takes_any_iff (es : List Expr) : (Expr.any es).Takes d ↔ ∀ e ∈ es, e.Takes d := by
  cases es with
  | nil => exact iff_of_true (takes_of_templates_eq_nil rfl) nofun
  | cons e es =>
      rw [Expr.any, takes_foldl_iff takes_or_iff, List.forall_mem_cons]

theorem takes_negateIf_iff (negated : Bool) (e : Expr) :
    (Expr.negateIf negated e).Takes d ↔ e.Takes d := by
  cases negated <;> exact Iff.rfl

end Expr

/-! ### Conditions -/

namespace Target

variable {t : Target}

/-- The columns that a full-text search looks into. -/
def searchedColumns (t : Target) (f : FullText) : List Expr :=
  (f.attributes.filterMap t.resource.attribute?).map fun attr =>
    .column t.resource.storage attr.columnName

theorem fullText_of_postgres (hd : t.dialect = .postgres) (f : FullText) : t.fullText f =
    let words := if f.requireAll then [f.phrase] else f.words
    .template (vectorMatch t (t.searchedColumns f) words)
      (t.searchedColumns f ++ words.map fun word => .scalar (.text word)) := by
  rw [fullText, hd]
  rfl

theorem fullText_of_mysql (hd : t.dialect = .mysql) (f : FullText) : t.fullText f =
    match booleanTerms? f with
    | none => likeSearch (t.searchedColumns f) f
    | some terms => .template ("MATCH (" ++ holes ", " (t.searchedColumns f) ++ ") AGAINST (" ++
        hole ++ " IN BOOLEAN MODE)") (t.searchedColumns f ++ [.scalar (.text terms)]) := by
  rw [fullText, hd]
  rfl

theorem fullText_of_sqlite (hd : t.dialect = .sqlite) (f : FullText) :
    t.fullText f = likeSearch (t.searchedColumns f) f := by
  rw [fullText, hd]
  rfl

/-- A full-text search takes its columns and its words, on Postgres if the language can stand in
quotes. -/
theorem takesArguments_fullText
    (hlanguage : t.dialect = .postgres → IsQuotable t.registry.options.language) (f : FullText) :
    (t.fullText f).TakesArguments t.dialect := by
  have hlike : (likeSearch (t.searchedColumns f) f).TakesArguments t.dialect := by
    refine ((Expr.hereditary_takes t.dialect).likeSearch (fun column hcolumn => ?_)
      f).takesArguments
    obtain ⟨attr, _, rfl⟩ := List.mem_map.1 hcolumn
    exact Expr.takes_column _ _
  cases hd : t.dialect with
  | sqlite =>
      rw [fullText_of_sqlite hd]
      exact hd ▸ hlike
  | mysql =>
      rw [fullText_of_mysql hd]
      cases booleanTerms? f with
      | none => exact hd ▸ hlike
      | some terms =>
          refine Eq.subst (motive := Takes .mysql _) List.length_append.symm ?_
          exact takes_match (.holes .mysql (t.searchedColumns f)) ⟨⟨rfl, by decide⟩, rfl⟩
            (.cons (by decide) _)
  | postgres =>
      have hblock := block_vectorMatch (hlanguage hd) (t.searchedColumns f)
        (if f.requireAll then [f.phrase] else f.words)
      rw [fullText_of_postgres hd]
      refine Eq.subst (motive := Takes .postgres _) ?_ hblock.takes
      rw [List.length_append, List.length_map]

/-- On Postgres a full-text search in any column takes them only so. -/
theorem isQuotable_of_takesArguments_fullText (hd : t.dialect = .postgres) {f : FullText}
    (hcolumns : t.searchedColumns f ≠ []) (htakes : (t.fullText f).TakesArguments t.dialect) :
    IsQuotable t.registry.options.language := by
  rw [fullText_of_postgres hd, hd] at htakes
  refine (takes_vectorMatch_iff hcolumns (if f.requireAll then [f.phrase] else f.words)).1 ?_
  refine Eq.subst (motive := Takes .postgres _) ?_ htakes
  rw [List.length_append, List.length_map]

/-- What a condition says by other means takes its parts, on Postgres if a language that is searched
in can stand in quotes. -/
theorem takesArguments_of_writes {searching : Prop} {e : Expr} (hwrites : t.Writes searching e)
    (hlanguage : t.dialect = .postgres → searching → IsQuotable t.registry.options.language) :
    e.TakesArguments t.dialect := by
  cases hwrites with
  | datePart op e => exact takesArguments_datePart t.dialect op e
  | affixTest op e needle => exact takesArguments_affixTest t.dialect op e needle
  | postgresTest dialect tests => exact dialect ▸ takesArguments_postgresTest? tests
  | searchTest searches tests =>
      exact (takesArguments_searchTest_iff tests).2 fun hd => hlanguage hd searches
  | fullText f searches => exact takesArguments_fullText (fun hd => hlanguage hd searches) f

/-- So do all templates of the condition of a filter. -/
theorem takes_condition {stem : String} {f : Filter} {condition : Expr}
    (hcondition : t.condition stem f = .ok condition)
    (hlanguage : t.dialect = .postgres → f.SearchesText →
      IsQuotable t.registry.options.language) : condition.Takes t.dialect :=
  (Expr.hereditary_takes t.dialect).condition hcondition
    (fun _ hwrites => takesArguments_of_writes hwrites hlanguage) (Expr.takes_column _)
    fun _ _ => Expr.takes_column _

/-- What the condition of a comparison that searches in a text takes says whether the language can
stand in quotes. -/
theorem isQuotable_of_takes_conditionOf (hd : t.dialect = .postgres) {c : Comparison} {kind : Kind}
    {e condition : Expr} {operand : Operand} (hsearch : c.SearchesText)
    (hcondition : t.conditionOf c kind e operand = .ok condition)
    (htakes : condition.Takes t.dialect) : IsQuotable t.registry.options.language := by
  have hnegated {negated : Bool} {e test : Expr} {kind : Kind}
      (htest : t.test c.param .search kind e operand = .ok test)
      (htakes : (Expr.negateIf negated test).Takes t.dialect) :
      IsQuotable t.registry.options.language :=
    (takesArguments_searchTest_iff htest).1
      ((Expr.takes_negateIf_iff negated test).1 htakes).takesArguments hd
  unfold conditionOf at hcondition
  cases hfunction : c.function with
  | none =>
      rw [hfunction, (Comparison.searchesText_iff_of_none hfunction).1 hsearch] at hcondition
      obtain ⟨test, htest, hrest⟩ := Result.bind_eq_ok.1 hcondition
      cases hrest
      exact hnegated htest htakes
  | some function =>
      rw [hfunction] at hcondition
      obtain ⟨e', _, hrest⟩ := Result.bind_eq_ok.1 hcondition
      have hpredicate : function.predicate? = none := by simpa [hfunction] using hsearch.1
      rw [hpredicate, hsearch.2] at hrest
      obtain ⟨test, htest, hdone⟩ := Result.bind_eq_ok.1 hrest
      cases hdone
      exact hnegated htest htakes

/-- The condition of a valid filter that searches in a text takes its expressions on Postgres only
if the language can stand in quotes. -/
theorem isQuotable_of_takes_condition (hd : t.dialect = .postgres) {stem : String} {f : Filter}
    {condition : Expr}
    (hvalid : ∀ leaf ∈ f.leaves, leaf.validateLeaf t.registry t.resource = .ok ())
    (hsearch : f.SearchesText) (hcondition : t.condition stem f = .ok condition)
    (htakes : condition.Takes t.dialect) : IsQuotable t.registry.options.language := by
  obtain ⟨leaf, hleaf, hsearches⟩ := hsearch
  induction f generalizing condition with
  | comparison c =>
      rw [Target.condition] at hcondition
      obtain rfl := List.mem_singleton.1 hleaf
      obtain ⟨_, _, _, _, _, _, hcompared⟩ := comparison_eq_ok hcondition
      exact isQuotable_of_takes_conditionOf hd hsearches hcompared htakes
  | fullText f =>
      rw [Target.condition] at hcondition
      cases hcondition
      have hfound : t.searchedColumns f ≠ [] := by
        have hsearched := FullText.searched_ne_nil (hvalid _ List.mem_cons_self)
        simpa [searchedColumns] using hsearched
      exact isQuotable_of_takesArguments_fullText hd hfound htakes.takesArguments
  | node connective children ih =>
      rw [Target.condition, conditions_eq_mapM] at hcondition
      obtain ⟨parts, hparts, hrest⟩ := Result.bind_eq_ok.1 hcondition
      rw [Filter.leaves_node] at hleaf hvalid
      obtain ⟨child, hchild, hleaf⟩ := List.mem_flatMap.1 hleaf
      obtain ⟨part, hpart, hcompiled⟩ := Result.mapM_eq_ok_mem hparts hchild
      have hall : ∀ part ∈ parts, part.Takes t.dialect := by
        cases hrest
        cases connective with
        | and => exact (Expr.takes_all_iff parts).1 htakes
        | or => exact (Expr.takes_any_iff parts).1 htakes
        | not => exact (Expr.takes_all_iff parts).1 htakes
      exact ih child hchild
        (fun leaf hmem => hvalid leaf (List.mem_flatMap.2 ⟨child, hchild, hmem⟩)) hcompiled
        (hall part hpart) hleaf

end Target

/-! ### Statements -/

theorem Select.forall_exprs_iff {s : Select} {p : Expr → Prop} : (∀ e ∈ s.exprs, p e) ↔
    (∀ column ∈ s.columns, ∀ e ∈ column.exprs, p e) ∧ (∀ e ∈ s.restriction.exprs, p e) ∧
      (∀ e ∈ s.groupBy, p e) ∧ ∀ term ∈ s.orderBy, p term.expr := by
  rw [Select.exprs, List.forall_mem_append, List.forall_mem_append, List.forall_mem_append,
    List.forall_mem_flatMap, List.forall_mem_map, and_assoc, and_assoc]

/-- However rows are restricted, it is by the condition of the filter. -/
theorem Target.exprs_restrictionOf (t : Target) (filter : Option Filter)
    (condition : Option Expr) : (t.restrictionOf filter condition).exprs = condition.toList := by
  unfold restrictionOf
  split
  · rfl
  · cases condition <;> rfl

namespace Expr.Hereditary

variable {written p : Expr → Prop} {ok : Value → Prop} (hp : Hereditary written p ok)
  (hrank : ∀ parents metrics, written (Sql.rankExpr parents metrics))
  (hcolumn : ∀ table name, p (.column table name)) (hown : ∀ name, p (.ownColumn name))

include hp hrank hcolumn hown

/-- Ordering or ranking groups adds a rank and columns to what the select of the groups has. -/
theorem totalsStatement {grouped : Select} {dimensions metrics : List Labelled}
    (hgrouped : ∀ e ∈ grouped.exprs, p e)
    (hlabelled : ∀ column ∈ dimensions ++ metrics, p column.2) (limit : Option Nat) :
    ∀ e ∈ (Sql.totalsStatement grouped dimensions metrics limit).exprs, p e := by
  obtain ⟨hcolumns, hrestriction, hgroupBy, horderBy⟩ := Select.forall_exprs_iff.1 hgrouped
  unfold Sql.totalsStatement
  split
  · rw [Statement.exprs, List.forall_mem_append, Select.forall_exprs_iff, List.forall_mem_map]
    refine ⟨⟨List.forall_mem_append.2 ⟨hcolumns, ?_⟩, hrestriction, hgroupBy, horderBy⟩, ?_⟩
    · rw [List.forall_mem_singleton, Projection.exprs, List.forall_mem_singleton]
      exact hp.rankExpr (hrank _ _) hlabelled
    · intro term hterm
      obtain ⟨label, _, hlabel⟩ := label_of_mem_groupOrder hterm
      exact hlabel ▸ hcolumn groupedAlias label
  · rw [Statement.exprs, Select.forall_exprs_iff]
    refine ⟨hcolumns, hrestriction, hgroupBy, fun term hterm => ?_⟩
    change term ∈ groupOrder dimensions metrics fun label =>
      ((dimensions ++ metrics).lookup label).getD (.ownColumn label) at hterm
    obtain ⟨label, _, hlabel⟩ := label_of_mem_groupOrder hterm
    rw [hlabel]
    cases hfound : (dimensions ++ metrics).lookup label with
    | none => exact hown label
    | some e => exact hlabelled (label, e) (mem_of_lookup hfound)

variable {t : Target} {selection : Selection}

/-- The totals of a request are made of columns and of what restricts its rows. -/
theorem totals {a : Aggregate} {q : TotalsQuery}
    (hrestriction : ∀ e ∈ selection.restriction.exprs, p e)
    (htotals : t.totals selection a = .ok (some q)) : ∀ e ∈ q.statement.exprs, p e := by
  obtain ⟨dimensions, arguments, hdimensions, harguments, rfl⟩ := t.totals_eq_some htotals
  have hlabelled := t.labelled_of_hereditary hp hcolumn hdimensions harguments
  refine hp.totalsStatement hrank hcolumn hown (Select.forall_exprs_iff.2
    ⟨?_, hrestriction, ?_, by simp [Target.grouped]⟩) hlabelled _
  · rw [Target.grouped, List.forall_mem_map]
    intro column hmem
    rw [Projection.exprs, List.forall_mem_singleton]
    exact hlabelled column hmem
  · rw [Target.grouped, List.forall_mem_map]
    exact fun column hmem => hlabelled column (List.mem_append_left _ hmem)

/-- All that the statements of a request are made of has a property that passes from parts to the
whole exactly if its condition has it, where columns and ranks do. -/
theorem statements_iff {request : Request} {query : Query}
    (hcompile : t.compile request = .ok query) :
    ∃ condition, request.filter.mapM (t.condition Joins.defaultStem) = .ok condition ∧
      ((∀ s ∈ query.statements, ∀ e ∈ s.exprs, p e) ↔ ∀ e ∈ condition, p e) := by
  obtain ⟨selection, terms, totals, _, hselection, horder, htotals, _, rfl⟩ :=
    t.compile_eq_ok_iff.1 hcompile
  obtain ⟨condition, hcondition, rfl⟩ := t.selection_eq_ok hselection
  refine ⟨condition, hcondition, fun hall e he => ?_, fun hfilter s hs => ?_⟩
  · have hpage := Select.forall_exprs_iff.1 (hall _ List.mem_cons_self)
    refine hpage.2.1 e ?_
    rw [Target.page, t.exprs_restrictionOf]
    exact Option.mem_toList.2 he
  have hrestriction : ∀ e ∈ (t.restrictionOf request.filter condition).exprs, p e := by
    rw [t.exprs_restrictionOf]
    exact fun e he => hfilter e (Option.mem_toList.1 he)
  rcases List.mem_cons.1 hs with rfl | hs
  · refine Select.forall_exprs_iff.2
      ⟨List.forall_mem_singleton.2 (List.forall_mem_nil _), hrestriction, List.forall_mem_nil _,
        fun term hterm => ?_⟩
    dsimp only [Target.page] at hterm
    split at hterm
    · obtain ⟨name, _, rfl⟩ := List.mem_map.1 hterm
      exact hcolumn _ name
    · obtain ⟨item, _, hitem⟩ := Result.mem_of_mapM_eq_ok horder hterm
      obtain ⟨⟨name, hexpr⟩, -⟩ := t.orderTerm_eq_ok hitem
      exact hexpr ▸ hcolumn _ name
  rcases List.mem_append.1 hs with hcount | htotal
  · obtain ⟨count, hcounted, rfl⟩ := Option.map_eq_some_iff.1 (Option.mem_toList.1 hcount)
    split at hcounted <;> cases hcounted
    refine Select.forall_exprs_iff.2
      ⟨?_, hrestriction, List.forall_mem_nil _, List.forall_mem_nil _⟩
    rw [Target.count, List.forall_mem_singleton, Projection.exprs, List.forall_mem_singleton]
    exact hp.countRows
  · obtain ⟨q, rfl, rfl⟩ := Option.map_eq_some_iff.1 (Option.mem_toList.1 htotal)
    exact hp.totals hrank hcolumn hown hrestriction htotals

end Expr.Hereditary

/-! ### Queries -/

namespace Target

variable {t : Target} {request : Request} {query : Query}

/-- The templates of a query take the expressions that they are given if those of its condition
do. -/
theorem templates_take_iff_condition (hcompile : t.compile request = .ok query) :
    ∃ condition, request.filter.mapM (t.condition Joins.defaultStem) = .ok condition ∧
      ((∀ use ∈ query.templates, Template.Takes t.dialect use.text use.count) ↔
        ∀ e ∈ condition, e.Takes t.dialect) := by
  obtain ⟨condition, hcondition, hstatements⟩ :=
    (Expr.hereditary_takes t.dialect).statements_iff (takesArguments_rankExpr t.dialect)
      Expr.takes_column (fun _ => Expr.takes_of_templates_eq_nil rfl) hcompile
  refine ⟨condition, hcondition, Iff.trans ?_ hstatements⟩
  simp only [Query.templates, List.forall_mem_flatMap, Expr.Takes]

/-- If a request searches in a text and the search names its language, the language can stand in
quotes. -/
def CanQuote (t : Target) (request : Request) : Prop :=
  t.dialect = .postgres → request.SearchesText → IsQuotable t.registry.options.language

/-- The templates of a query take their expressions exactly if the language can stand in quotes
where it has to. -/
theorem templates_take_iff_canQuote
    (hvalid : request.validate t.registry t.resource = .ok ())
    (hcompile : t.compile request = .ok query) :
    (∀ use ∈ query.templates, Template.Takes t.dialect use.text use.count) ↔
      t.CanQuote request := by
  obtain ⟨condition, hcondition, htemplates⟩ := templates_take_iff_condition hcompile
  have hleaves := (Request.isValid_of_validate hvalid).leaves
  rw [htemplates]
  cases hfilter : request.filter with
  | none =>
      rw [hfilter] at hcondition
      cases hcondition
      refine iff_of_true nofun fun _ hsearch => ?_
      obtain ⟨f, hf, -⟩ := hsearch
      cases hfilter.symm.trans hf
  | some f =>
      rw [hfilter] at hcondition
      obtain ⟨e, he, hrest⟩ := Result.bind_eq_ok.1 hcondition
      cases hrest
      constructor
      · rintro htakes hd ⟨f', hf', hsearch⟩
        cases hfilter.symm.trans hf'
        exact isQuotable_of_takes_condition hd (hleaves f hfilter) hsearch he (htakes e rfl)
      · rintro hquote _ ⟨⟩
        exact takes_condition he fun hd hsearch => hquote hd ⟨f, hfilter, hsearch⟩

/-- Whatever is asked for, all templates of a query take the expressions that they are given (there
is one for each hole, and the mark of each hole stands outside of quotations) exactly if the
language can stand in quotes where it has to. Then every template is written with its expressions
between its pieces, in their order, and none is looked for that is not there. -/
theorem templates_take_iff (hvalid : request.validate t.registry t.resource = .ok ())
    (hcompile : t.compile request = .ok query) :
    ((∀ use ∈ query.templates, Template.Takes query.dialect use.text use.count) ↔
      t.CanQuote request) ∧
    (t.CanQuote request → query.isFilled = true ∧
      ∀ use ∈ query.templates, ∀ arguments : List Fragment, arguments.length = use.count →
        Expr.fillTemplate query.dialect use.text arguments =
          weave (cut use.text.toList) arguments) := by
  obtain ⟨_, _, _, _, _, _, _, _, hquery⟩ := t.compile_eq_ok_iff.1 hcompile
  have hdialect : query.dialect = t.dialect := by rw [hquery]
  have hiff := templates_take_iff_canQuote hvalid hcompile
  rw [← hdialect] at hiff
  refine ⟨hiff, fun hquote => ⟨List.all_eq_true.2 fun use huse => ?_, fun use huse arguments => ?_⟩⟩
  · exact (hiff.2 hquote use huse).isFilled
  · exact (hiff.2 hquote use huse).fillTemplate_eq

end Target

/-! A joiner's products are searched for by their names. -/

namespace Joinery

def product : Resource where
  name := "product"
  storage := "products"
  attributes := [{ name := "name", kind := .string }, { name := "wood", kind := .string }]
  fullText := ["name"]

/-- The products with a language for the search in their names. -/
def target (language : String) : Target where
  dialect := .postgres
  functions := []
  registry := { entries := [⟨product, .relational .postgres []⟩], options := { language } }
  resource := product

/-- The products with a word in their names. -/
def oak : Request where
  filter := some (.fullText ⟨"q", "oak", ["name"], false⟩)

/-- Those products by wood, and the first names of each. -/
def oakByWood : Request where
  filter := oak.filter
  aggregate := {
    metrics := [⟨.count, none⟩]
    groupBy := [⟨[], "wood"⟩, ⟨[], "name"⟩]
    groupLimit := some 3 }

/-- A quote in the language is doubled, and both the searches and the rank take their
expressions. -/
theorem templates_take_iff_oakByWood : ∃ query,
    (target "l'orme").compile oakByWood = .ok query ∧
    query.templates.map (·.count) = [2, 2, 2] ∧
    (∀ use ∈ query.templates, Template.Takes query.dialect use.text use.count) ∧
    query.isFilled = true := by
  have hcompile : (target "l'orme").compile oakByWood = _ := rfl
  have hquotable : IsQuotable "l'orme" := ⟨by decide, by decide⟩
  obtain ⟨htakes, hfilled⟩ := Target.templates_take_iff
    (show oakByWood.validate (target "l'orme").registry product = .ok () from rfl) hcompile
  exact ⟨_, hcompile, rfl, htakes.2 fun _ _ => hquotable, (hfilled fun _ _ => hquotable).1⟩

/-- A backslash hides the quote behind the language: the mark of the first hole is read as a part of
a quotation, and no word is bound. A pair of braces in the language is one more hole, for which
there is no expression. -/
theorem template_misses_expressions :
    (∃ query, oak.validate (target "\\").registry product = .ok () ∧
      (target "\\").compile oak = .ok query ∧
      (∃ use ∈ query.templates, ¬ Template.Takes query.dialect use.text use.count) ∧
      ((Statement.select query.page).prepare query.dialect).values = []) ∧
    ∃ query, oak.validate (target hole).registry product = .ok () ∧
      (target hole).compile oak = .ok query ∧ query.isFilled = false := by
  have hhidden : (target "\\").compile oak = _ := rfl
  have hbraces : (target hole).compile oak = _ := rfl
  refine ⟨⟨_, rfl, hhidden, ⟨_, List.mem_cons_self, fun htakes => ?_⟩, ?_⟩, _, rfl, hbraces, ?_⟩
  · exact absurd (htakes.outside 0 (by decide)) (by decide)
  · decide +kernel
  · decide +kernel

end Joinery
end Sql
end Listing

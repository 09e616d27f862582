/-
# Fields are in scope

Where no column, key or relation is named like a label, the field of an attribute begins like one
only if its path goes through a reference: then it lies under the alias of the last reference on the
path, which is among the labels that the lookups of the path add. So whatever a condition tests is
in scope after the lookups, and every lookup finds its local field under an earlier one.

An operand is another matter. After a chain of functions it stands in an expression as it is, and a
text in it may name any field.
-/
import Listing.Proofs.DocumentElements
import Listing.Proofs.Lookups
import Listing.Proofs.Semantics.StageScope
import Listing.Proofs.Support.Document

namespace Listing.Document

/-- No column, key or relation of a resource is named like a label. -/
structure LeavesLabels (resource : Resource) : Prop where
  columns : ∀ attr ∈ resource.attributes, ¬ IsLabelled attr.columnName
  primaryKey : ∀ key ∈ resource.primaryKey, ¬ IsLabelled key
  relations : ∀ relation ∈ resource.relations,
    ¬ IsLabelled relation.name ∧ ¬ IsLabelled relation.localKey

/-- A value names no field that begins like a label. -/
def NamesNoLabel (v : Json) : Prop := ∀ name ∈ references false v, ¬ IsLabelled name

instance (v : Json) : Decidable (NamesNoLabel v) :=
  inferInstanceAs (Decidable (∀ name ∈ references false v, ¬ IsLabelled name))

/-- The values of an operand name no such field where an operator after a chain puts them. Patterns
never do. -/
def NamesNoLabelAfter (op : Operator) (operand : Operand) : Prop :=
  match op with
  | .iexact | .icontains | .startsWith | .istartsWith | .endsWith | .iendsWith => True
  | _ => ∀ s ∈ operand.values, NamesNoLabel s.toJson

/-- The operand of a comparison names no such field where it stands in an expression. -/
def OperandNamesNoLabel (c : Comparison) (operand : Operand) : Prop :=
  match c.function with
  | none => True
  | some function => match function.predicate? with
    | some _ => ∀ s ∈ operand.values, NamesNoLabel s.toJson
    | none => NamesNoLabelAfter c.valueOperator.positive operand

/-- The operands of a request name no such field. -/
def Target.OperandsNameNoLabel (t : Target) (request : Request) : Prop :=
  ∀ c ∈ request.comparisons, ∀ located operand,
    t.registry.locate t.resource c.param c.path = .ok located →
    Operand.ofComparison c located.attr = .ok operand → OperandNamesNoLabel c operand

section Routes

variable {registry : Registry} {start : Resource} {joins : Joins} {route : Route}

/-- A relation that is walked is not named like a label, and neither is its key. -/
theorem not_isLabelled_of_walk (hnames : ∀ entry ∈ registry.entries, LeavesLabels entry.resource)
    (hstart : LeavesLabels start) {names : List String} {hop : Hop}
    (hhop : hop ∈ (registry.walk start names).1) :
    ¬ IsLabelled hop.relation.name ∧ ¬ IsLabelled hop.relation.localKey := by
  obtain ⟨⟨owner, howner, hrelation⟩, _⟩ := Registry.holds_of_walk hnames hstart hhop
  exact howner.relations _ hrelation

/-- A path through embedded relations does not begin like a label. -/
theorem not_isLabelled_pathTo (hhops : ∀ hop ∈ route, ¬ IsLabelled hop.relation.name)
    {name : String} (hname : ¬ IsLabelled name) : ¬ IsLabelled (route.pathTo name) := by
  have hend : ∀ hop ∈ route.rtakeWhile (·.relation.embedded), ¬ IsLabelled hop.relation.name :=
    fun hop hhop => hhops hop ((List.rtakeWhile_suffix _ _).subset hhop)
  rw [Route.pathTo]
  cases hnested : route.rtakeWhile (·.relation.embedded) with
  | nil => exact hname
  | cons hop hops => exact not_isLabelled_below (hend hop (hnested ▸ List.mem_cons_self)) _

/-- The alias of a reference is a label. -/
theorem aliasName_mem_lookupFields (hroute : route ∈ joins.routes)
    (hreference : route.isReference = true) :
    route.aliasName joins.stem ∈ lookupFields joins := by
  rw [lookupFields_eq_map]
  exact List.mem_map_of_mem (List.mem_filter.2 ⟨hroute, hreference⟩)

/-- A field at the end of a route that is looked up is in scope. -/
theorem inScope_below (hordered : Joins.IsOrdered joins.routes)
    (hroute : route = [] ∨ route ∈ joins.routes)
    (hhops : ∀ hop ∈ route, ¬ IsLabelled hop.relation.name) {name : String}
    (hname : ¬ IsLabelled name) :
    InScope (lookupFields joins) (below (fieldOfRoute joins.stem route) name) := by
  rw [below_fieldOfRoute]
  by_cases hholder : route.holder = []
  · rw [if_pos hholder]
    exact .of_plain (not_isLabelled_pathTo hhops hname)
  · rw [if_neg hholder]
    rcases hroute with rfl | hmem
    · exact absurd rfl hholder
    · have hbefore := hordered.mem_of_begins hmem hholder route.holder_begins
      have hlabel := aliasName_mem_lookupFields hbefore (Route.isReference_holder hholder)
      exact fun _ => ⟨_, hlabel, .inr ⟨_, rfl⟩⟩

end Routes

section Lookups

variable {relation : Relation} {collection localField label : String} {labels : List String}

theorem lookupLabels_lookupStages :
    lookupLabels (lookupStages relation collection localField label) = [label] := by
  cases hmany : relation.many <;> simp [lookupStages, hmany, lookupLabels, Stage.label?]

theorem keepsFields_of_mem_lookupStages {stage : Stage}
    (hstage : stage ∈ lookupStages relation collection localField label) :
    stage.keepsFields = true := by
  rcases eq_of_mem_lookupStages hstage with rfl | rfl <;> rfl

/-- The stages of a relation need its local field, and unwind what they looked up. -/
theorem wellScoped_lookupStages (hlocal : InScope labels localField) :
    WellScoped labels (lookupStages relation collection localField label) := by
  have hlookup : ∀ field ∈ [localField], InScope labels field := by simpa using hlocal
  have hunwind : ∀ field ∈ [label], InScope (labels ++ [label]) field := by
    intro field hfield _
    exact ⟨label, by simp, .inl (List.mem_singleton.1 hfield)⟩
  cases hmany : relation.many with
  | true =>
      rw [lookupStages, hmany, if_pos rfl]
      exact ⟨hlookup, trivial⟩
  | false =>
      rw [lookupStages, hmany, if_neg Bool.false_ne_true]
      exact ⟨hlookup, hunwind, trivial⟩

theorem lookupLabels_lookups (joins : Joins) :
    lookupLabels (lookups joins) = lookupFields joins := by
  obtain ⟨start, stem, routes⟩ := joins
  rw [lookupFields_eq_map]
  induction routes using List.reverseRecOn with
  | nil => rfl
  | append_singleton routes route ih =>
      rw [lookups_append, lookupLabels_append, ih, List.filter_append, List.map_append]
      congr 1
      cases hreference : route.isReference with
      | true =>
          obtain ⟨hop, hlast, hseparate⟩ := Route.isReference_iff.1 hreference
          rw [lookups_reference hlast hseparate, lookupLabels_lookupStages]
          simp [hreference]
      | false =>
          rw [lookups_of_not_reference hreference]
          simp [hreference, lookupLabels]

theorem keepsFields_of_mem_lookups {joins : Joins} {stage : Stage}
    (hstage : stage ∈ lookups joins) : stage.keepsFields = true := by
  obtain ⟨route, _, hop, _, _, hmem⟩ := mem_lookups hstage
  exact keepsFields_of_mem_lookupStages hmem

/-- Lookups are well scoped: the local field of each is the listed document's own, or lies under the
alias of a reference that was looked up before. -/
theorem wellScoped_lookups {joins : Joins} (hordered : Joins.IsOrdered joins.routes)
    (hplain : ∀ route ∈ joins.routes, ∀ hop ∈ route,
      ¬ IsLabelled hop.relation.name ∧ ¬ IsLabelled hop.relation.localKey) :
    WellScoped labels (lookups joins) := by
  obtain ⟨start, stem, routes⟩ := joins
  change Joins.IsOrdered routes at hordered
  induction hordered with
  | nil => trivial
  | snoc routes route hordered hnonempty hfollows ih =>
      rw [lookups_append, wellScoped_append,
        labelsAfter_of_keepsFields fun _ => keepsFields_of_mem_lookups, lookupLabels_lookups]
      refine ⟨ih fun other hother => hplain other (List.mem_append_left _ hother), ?_⟩
      have hhops := hplain route (by simp)
      cases hreference : route.isReference with
      | true =>
          obtain ⟨hop, hlast, hseparate⟩ := Route.isReference_iff.1 hreference
          rw [lookups_reference hlast hseparate]
          have hlocal : InScope (lookupFields { start, stem, routes })
              (below (fieldOfRoute stem route.dropLast) hop.relation.localKey) :=
            inScope_below hordered hfollows
              (fun before hbefore => (hhops before (List.dropLast_subset _ hbefore)).1)
              (hhops hop (List.mem_of_getLast? hlast)).2
          exact wellScoped_lookupStages (hlocal.mono (List.subset_append_right _ _))
      | false =>
          rw [lookups_of_not_reference hreference]
          trivial

end Lookups

/-- An expression mentions one field, and nothing else that begins like a label. -/
def Expr.MentionsOnly (field : String) (e : Expr) : Prop :=
  ∀ name ∈ e.mentions, name = field ∨ ¬ IsLabelled name

namespace Expr.MentionsOnly

variable {field : String} {e e' : Expr}

theorem ofField : (Expr.field field).MentionsOnly field :=
  fun _ hname => .inl (List.mem_singleton.1 hname)

/-- An operator mentions what its arguments do. -/
theorem apply (he : e.MentionsOnly field) (operator : String) (vs : List Json)
    (hvs : ∀ v ∈ vs, NamesNoLabel v) :
    (Expr.apply operator (e :: vs.map .value)).MentionsOnly field := by
  intro name hname
  rw [mentions, mentionsOfAll, mentionsOfAll_values] at hname
  rcases List.mem_append.1 hname with hcomputed | hvalue
  · exact he name hcomputed
  · obtain ⟨v, hv, hname⟩ := List.mem_flatMap.1 hvalue
    exact .inr (hvs v hv name hname)

theorem compareExpr (he : e.MentionsOnly field) (comparator : Comparator) {v : Json}
    (hv : NamesNoLabel v) : (compareExpr comparator e v).MentionsOnly field :=
  he.apply comparator.name [v] (by simpa using hv)

theorem both (he : e.MentionsOnly field) (he' : e'.MentionsOnly field) :
    (Expr.apply "$and" [e, e']).MentionsOnly field := by
  intro name hname
  simp only [mentions, mentionsOfAll, List.append_nil, List.mem_append] at hname
  exact hname.elim (he name) (he' name)

theorem datePart (he : e.MentionsOnly field) (op : Operator) {v : Json} (hv : NamesNoLabel v) :
    (Expr.apply "$eq" [.apply (datePart op) [e], .value v]).MentionsOnly field := by
  have hdate : (Expr.apply (Document.datePart op) [e]).MentionsOnly field :=
    he.apply _ [] (by simp)
  exact hdate.apply "$eq" [v] (by simpa using hv)

end Expr.MentionsOnly

section Tests

variable {t : Target} {param : String} {op : Operator} {operand : Operand} {field : String}

/-- A chain of functions mentions the field that it begins with. -/
theorem mentionsOnly_transforms {names : List String} {e : Expr}
    (htransforms : names.foldlM (fun e name => t.call param name [e]) (.field field) = .ok e) :
    e.MentionsOnly field := by
  refine Result.foldlM_invariant (Expr.MentionsOnly field) (fun e name called he hcall => ?_)
    Expr.MentionsOnly.ofField htransforms
  obtain ⟨f, _, rfl⟩ := Target.call_eq_ok hcall
  exact he.apply f.2 [] (by simp)

/-- The sign is escaped in a regular expression. -/
theorem isMarked_escapeRegex (needle : String) : isMarked (Text.escapeRegex needle) = false := by
  rw [isMarked, Text.escapeRegex, Text.escapeWith, String.toList_ofList]
  cases needle.toList with
  | nil => rfl
  | cons c cs =>
      rw [List.flatMap_cons]
      by_cases hmark : Text.isRegexMark c = true
      · rw [if_pos hmark]
        rfl
      · rw [if_neg hmark]
        have hsign : c ≠ '$' := fun heq => hmark (heq ▸ rfl)
        simpa using hsign

/-- A pattern begins with no dollar sign, unless it is the sign for an empty end. -/
theorem isMarked_pattern (op : Operator) (needle : String) :
    isMarked (regexOf op needle).1 = false ∨
      (op = .endsWith ∨ op = .iendsWith) ∧ needle = "" ∧ (regexOf op needle).1 = "$" := by
  have hstart (rest : String) : isMarked ("^" ++ rest) = false := by
    simp [isMarked]
  have hend : isMarked (Text.escapeRegex needle ++ "$") = false ∨ needle = "" := by
    cases hneedle : needle.toList with
    | nil => exact .inr (String.toList_eq_nil_iff.1 hneedle)
    | cons c cs =>
        have hmarked := isMarked_escapeRegex needle
        cases hescaped : (Text.escapeRegex needle).toList with
        | nil =>
            rw [Text.escapeRegex, Text.escapeWith, String.toList_ofList, hneedle,
              List.flatMap_cons] at hescaped
            split at hescaped <;> cases hescaped
        | cons first rest =>
            rw [isMarked, hescaped] at hmarked
            rw [isMarked, String.toList_append, hescaped]
            exact .inl hmarked
  cases op
  case iexact =>
    rw [regexOf, String.append_assoc]
    exact .inl (hstart _)
  case startsWith | istartsWith => exact .inl (hstart _)
  case endsWith | iendsWith =>
    refine hend.imp_right fun hempty => ⟨by simp, hempty, ?_⟩
    rw [hempty]
    rfl
  all_goals exact .inl (isMarked_escapeRegex needle)

/-- A pattern names no field: the sign is escaped in a needle, and nothing follows the sign at the
end of a pattern. -/
theorem namesNoLabel_pattern (op : Operator) (needle : String) :
    NamesNoLabel (.string (regexOf op needle).1) := by
  rcases isMarked_pattern op needle with hplain | ⟨-, -, hsign⟩
  · simp [NamesNoLabel, references, hplain]
  · rw [hsign]
    decide

theorem mentionsOnly_regexMatch {e : Expr} (he : e.MentionsOnly field) (op : Operator)
    (needle : String) : (Expr.regexMatch e (regexOf op needle).1
      (regexOf op needle).2).MentionsOnly field := by
  intro name hname
  rw [Expr.mentions, List.mem_append] at hname
  rcases hname with hcomputed | hpattern
  · exact he name hcomputed
  · exact .inr (namesNoLabel_pattern op needle name hpattern)

/-- A test of a computed value mentions what the value is computed of. -/
theorem mentionsOnly_exprTest {e test : Expr} (he : e.MentionsOnly field)
    (htest : exprTest param op e operand = .ok test) (hoperand : NamesNoLabelAfter op operand) :
    test.MentionsOnly field := by
  have hsingle (hvalues : ∀ s ∈ operand.values, NamesNoLabel s.toJson) :
      NamesNoLabel operand.single.toJson := by
    rw [Operand.single]
    cases hlist : operand.values with
    | nil => exact List.forall_mem_nil _
    | cons s rest => exact hvalues s (by rw [hlist]; exact List.mem_cons_self)
  have hpattern := mentionsOnly_regexMatch he op operand.single.toJson.text
  unfold exprTest at htest
  cases op
  case range =>
    cases operand <;> cases htest
    rename_i low high
    exact (he.compareExpr .gte (hoperand low (by simp [Operand.values]))).both
      (he.compareExpr .lte (hoperand high (by simp [Operand.values])))
  case among =>
    cases htest
    refine he.apply "$in" [.array (jsonValues operand)] ?_
    rw [List.forall_mem_singleton]
    intro name hname
    rw [references, referencesOfAll_eq_flatMap] at hname
    obtain ⟨v, hv, hname⟩ := List.mem_flatMap.1 hname
    obtain ⟨s, hs, rfl⟩ := List.mem_map.1 hv
    exact hoperand s hs name hname
  case iexact | icontains | startsWith | istartsWith | endsWith | iendsWith =>
    cases htest
    exact hpattern
  case year | month | day =>
    cases htest
    exact he.datePart _ (hsingle hoperand)
  case isNull | isNotNull =>
    cases htest
    exact he.compareExpr _ (List.forall_mem_nil _)
  all_goals first
    | (cases htest; exact he.compareExpr _ (hsingle hoperand))
    | cases htest

end Tests

namespace Filter

mutual
/-- A filter that computes nothing mentions the fields that it tests. -/
theorem mentions_of_isPlain : ∀ f : Filter, f.isPlain = true → f.mentions = f.paths
  | .field _ _, _ => rfl
  | .and filters, hplain | .or filters, hplain | .nor filters, hplain =>
      mentionsOfAll_of_arePlain filters hplain
  | .expr _, hplain => nomatch hplain

theorem mentionsOfAll_of_arePlain : ∀ fs : List Filter, arePlain fs = true →
    mentionsOfAll fs = pathsOfAll fs
  | [], _ => rfl
  | f :: fs, hplain => by
      rw [arePlain, Bool.and_eq_true] at hplain
      rw [mentionsOfAll, pathsOfAll, mentions_of_isPlain f hplain.1,
        mentionsOfAll_of_arePlain fs hplain.2]
end

theorem mentions_negateIf (negated : Bool) (f : Filter) :
    (negateIf negated f).mentions = f.mentions := by
  cases negated with
  | false => rfl
  | true => exact List.append_nil f.mentions

/-- A filter mentions fields at or below one, and nothing else that begins like a label. -/
def MentionsWithin (field : String) (f : Filter) : Prop :=
  ∀ name ∈ f.mentions, Within field name ∨ ¬ IsLabelled name

end Filter

/-- A part of a date is compared with an integer. -/
theorem single_of_date {op : Operator} (hdate : op.positive ∈ [Operator.year, .month, .day])
    {kind elementKind : Kind} {value : Json} {operand : Operand}
    (hread : Operand.readFor op kind elementKind value = .ok operand) :
    ∃ n, operand.single = .int n := by
  have harity : op.arity = .binary := by
    rw [← Operator.arity_positive]
    simp only [List.mem_cons, List.not_mem_nil, or_false] at hdate
    rcases hdate with h | h | h <;> rw [h] <;> rfl
  obtain ⟨s, hs, rfl⟩ := Operand.one_of_readFor harity hread
  have hinteger : Scalar.readInteger value = .ok s := by
    unfold Operand.readSingle at hs
    simp only [List.mem_cons, List.not_mem_nil, or_false] at hdate
    rcases hdate with h | h | h <;> rwa [h] at hs
  unfold Scalar.readInteger at hinteger
  dsimp only at hinteger
  split at hinteger
  · cases hinteger
    exact ⟨_, rfl⟩
  · cases hinteger

namespace Target

variable {t : Target} {stem : String} {paths : List Path}

/-- A comparison mentions the field of its attribute and fields below it. -/
theorem mentionsWithin_comparison {c : Comparison} {located : Located} {operand : Operand}
    {filter : Filter} (hlocate : t.registry.locate t.resource c.param c.path = .ok located)
    (hoperand : Operand.ofComparison c located.attr = .ok operand)
    (hcompile : t.comparison stem c = .ok filter) (hnames : OperandNamesNoLabel c operand) :
    filter.MentionsWithin (fieldOf stem located) := by
  have hexpr {e : Expr} (he : e.MentionsOnly (fieldOf stem located)) :
      (Filter.expr e).MentionsWithin (fieldOf stem located) :=
    fun name hname => (he name hname).imp_left .inl
  unfold comparison at hcompile
  rw [hlocate] at hcompile
  obtain ⟨_, hlocated, hcompile⟩ := Result.bind_eq_ok.1 hcompile
  cases hlocated
  dsimp only at hcompile
  rw [hoperand] at hcompile
  obtain ⟨_, hread, hcompile⟩ := Result.bind_eq_ok.1 hcompile
  cases hread
  unfold OperandNamesNoLabel at hnames
  cases hfunction : c.function with
  | none =>
      rw [hfunction] at hcompile
      obtain ⟨positive, hpositive, hfilter⟩ := Result.bind_eq_ok.1 hcompile
      cases hfilter
      rw [Filter.MentionsWithin, Filter.mentions_negateIf]
      by_cases hdate : c.operator.positive ∈ [Operator.year, .month, .day]
      · obtain ⟨n, hsingle⟩ := single_of_date hdate
          (Operand.readFor_of_ofComparison hfunction hoperand)
        have hinteger : NamesNoLabel operand.single.toJson := by
          rw [hsingle]
          exact List.forall_mem_nil _
        simp only [List.mem_cons, List.not_mem_nil, or_false] at hdate
        rcases hdate with hop | hop | hop <;> rw [hop] at hpositive <;> cases hpositive <;>
          exact hexpr (Expr.MentionsOnly.ofField.datePart _ hinteger)
      · intro name hname
        rw [Filter.mentions_of_isPlain positive (isPlain_fieldFilter hdate hpositive)] at hname
        exact .inl (isWithin_fieldFilter hpositive name hname)
  | some function =>
      rw [hfunction] at hcompile hnames
      dsimp only at hnames
      obtain ⟨e, htransforms, hcompile⟩ := Result.bind_eq_ok.1 hcompile
      have he := mentionsOnly_transforms htransforms
      cases hpredicate : function.predicate? with
      | some name =>
          rw [hpredicate] at hcompile hnames
          obtain ⟨called, hcalled, hfilter⟩ := Result.bind_eq_ok.1 hcompile
          cases hfilter
          obtain ⟨f, _, rfl⟩ := call_eq_ok hcalled
          refine hexpr (he.apply f.2 _ fun v hv => ?_)
          obtain ⟨s, hs, rfl⟩ := List.mem_map.1 hv
          exact hnames s hs
      | none =>
          rw [hpredicate] at hcompile hnames
          obtain ⟨test, htest, hfilter⟩ := Result.bind_eq_ok.1 hcompile
          cases hfilter
          rw [Filter.MentionsWithin, Filter.mentions_negateIf]
          exact hexpr (mentionsOnly_exprTest he htest hnames)

/-- A full-text search mentions columns of the listed resource. -/
theorem mentions_fullText (f : FullText) : ∀ name ∈ (t.fullText f).mentions,
    ∃ attr ∈ t.resource.attributes, name = attr.columnName := by
  have hwords : ∀ words : List String, ∀ name ∈ Filter.mentionsOfAll (words.map fun word =>
      .or (((f.attributes.filterMap t.resource.attribute?).map (·.columnName)).map fun field =>
        .field field (.regex (Text.escapeRegex word) "i"))),
      ∃ attr ∈ t.resource.attributes, name = attr.columnName := by
    intro words name hname
    rw [Filter.mentionsOfAll_eq_flatMap, List.flatMap_map] at hname
    obtain ⟨word, _, hname⟩ := List.mem_flatMap.1 hname
    rw [Filter.mentions, Filter.mentionsOfAll_eq_flatMap, List.flatMap_map] at hname
    obtain ⟨column, hcolumn, hname⟩ := List.mem_flatMap.1 hname
    obtain ⟨attr, hattr, rfl⟩ := List.mem_map.1 hcolumn
    obtain ⟨searched, _, hfound⟩ := List.mem_filterMap.1 hattr
    exact ⟨attr, List.mem_of_find?_eq_some hfound, List.mem_singleton.1 hname⟩
  unfold fullText
  dsimp only
  split <;> exact hwords f.words

/-- An attribute is found at the end of a route that its path uses, through relations that are not
named like labels, and neither is its column. -/
theorem leavesLabels_of_locate
    (hnames : ∀ entry ∈ t.registry.entries, LeavesLabels entry.resource)
    (hresource : LeavesLabels t.resource) {path : Path} (hpath : path ∈ paths)
    {param : String} {located : Located}
    (hlocate : t.registry.locate t.resource param path = .ok located) :
    (located.route = [] ∨ located.route ∈ t.registry.routesUsed t.resource paths) ∧
      (∀ hop ∈ located.route, ¬ IsLabelled hop.relation.name) ∧
      ¬ IsLabelled located.attr.columnName := by
  have hwalk := Registry.walk_of_locate hlocate
  obtain ⟨howners, howned⟩ := Registry.holds_of_locate hnames hresource hlocate
  refine ⟨?_, fun hop hhop => ?_, howned.columns _ (Registry.attr_mem_of_locate hlocate)⟩
  · by_cases hempty : located.route = []
    · exact .inl hempty
    · exact .inr (Registry.mem_routesUsed.2 ⟨hempty, path, hpath, by rw [hwalk]⟩)
  · obtain ⟨owner, howner, hrelation⟩ := howners hop hhop
    exact (howner.relations _ hrelation).1

/-- The field of an attribute is in scope of the lookups of the paths among which its path is. -/
theorem inScope_fieldOf (hnames : ∀ entry ∈ t.registry.entries, LeavesLabels entry.resource)
    (hresource : LeavesLabels t.resource) {path : Path} (hpath : path ∈ paths)
    {param : String} {located : Located}
    (hlocate : t.registry.locate t.resource param path = .ok located) :
    InScope (lookupFields (t.joinsOf stem paths)) (fieldOf stem located) := by
  obtain ⟨hused, hhops, hcolumn⟩ := leavesLabels_of_locate hnames hresource hpath hlocate
  exact inScope_below (t.registry.isOrdered_routesUsed _ _) hused hhops hcolumn

/-- Whatever a condition mentions is in scope of the lookups of its paths. -/
theorem inScope_condition (hnames : ∀ entry ∈ t.registry.entries, LeavesLabels entry.resource)
    (hresource : LeavesLabels t.resource) {f : Listing.Filter}
    (hpaths : ∀ path ∈ f.paths, path ∈ paths)
    (hoperands : ∀ c ∈ f.comparisons, ∀ located operand,
      t.registry.locate t.resource c.param c.path = .ok located →
      Operand.ofComparison c located.attr = .ok operand → OperandNamesNoLabel c operand)
    {filter : Filter} (hcondition : t.condition stem f = .ok filter) :
    ∀ name ∈ filter.mentions, InScope (lookupFields (t.joinsOf stem paths)) name := by
  induction f generalizing filter with
  | comparison c =>
      rw [condition] at hcondition
      obtain ⟨located, hlocate, hrest⟩ := Result.bind_eq_ok.1 hcondition
      obtain ⟨operand, hoperand, _⟩ := Result.bind_eq_ok.1 hrest
      have hpath := hpaths c.path (by simp [Listing.Filter.paths, Listing.Filter.leaves])
      have hfield : InScope _ (fieldOf stem located) :=
        inScope_fieldOf hnames hresource hpath hlocate
      have hplain := hoperands c (by simp [Listing.Filter.comparisons, Listing.Filter.leaves])
        located operand hlocate hoperand
      intro name hname
      rcases mentionsWithin_comparison hlocate hoperand hcondition hplain name hname with
        hwithin | hother
      · exact hfield.of_within hwithin
      · exact .of_plain hother
  | fullText f =>
      rw [condition] at hcondition
      cases hcondition
      intro name hname
      obtain ⟨attr, hattr, rfl⟩ := mentions_fullText f name hname
      exact .of_plain (hresource.columns attr hattr)
  | node connective children ih =>
      rw [condition, conditions_eq_mapM] at hcondition
      obtain ⟨parts, hparts, hrest⟩ := Result.bind_eq_ok.1 hcondition
      rw [Listing.Filter.paths_node] at hpaths
      rw [Listing.Filter.comparisons_node] at hoperands
      have hmentions : ∀ name ∈ Filter.mentionsOfAll parts,
          InScope (lookupFields (t.joinsOf stem paths)) name := by
        intro name hname
        rw [Filter.mentionsOfAll_eq_flatMap] at hname
        obtain ⟨part, hpart, hname⟩ := List.mem_flatMap.1 hname
        obtain ⟨child, hmem, hchild⟩ := Result.mem_of_mapM_eq_ok hparts hpart
        refine ih child hmem (fun path hpath => ?_) (fun c hc => ?_) hchild name hname
        · exact hpaths path (List.mem_flatMap.2 ⟨child, hmem, hpath⟩)
        · exact hoperands c (List.mem_flatMap.2 ⟨child, hmem, hc⟩)
      cases hrest
      cases connective <;> exact hmentions

end Target

end Listing.Document

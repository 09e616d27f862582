/-
# The tables that a condition names

The condition of a filter names the listed table and the aliases of the routes that its comparisons
walk, and nothing else. What it says of a row therefore does not change when further tables are
joined, and a route that it names is never embedded.
-/
import Listing.Proofs.ConditionParts

namespace Listing

namespace Sql
namespace Expr

theorem tablesOf_eq_flatMap (es : List Expr) : tablesOf es = es.flatMap tables := by
  induction es with
  | nil => rfl
  | cons e es ih =>
      rw [List.flatMap_cons, ← ih]
      rfl

variable {names names' : List String}

theorem IsOver.mono {e : Expr} (he : e.IsOver names) (hnames : names ⊆ names') : e.IsOver names' :=
  fun _ htable => hnames (he htable)

theorem isOver_column {table name : String} (htable : table ∈ names) :
    (column table name).IsOver names :=
  fun _ hother => List.mem_singleton.1 hother ▸ htable

theorem tablesOf_subset {es : List Expr} (hes : ∀ e ∈ es, e.IsOver names) :
    tablesOf es ⊆ names := by
  rw [tablesOf_eq_flatMap]
  intro table htable
  obtain ⟨e, he, htable⟩ := List.mem_flatMap.1 htable
  exact hes e he htable

theorem isOver_call {function : String} {arguments : List Expr}
    (harguments : ∀ e ∈ arguments, e.IsOver names) : (call function arguments).IsOver names :=
  tablesOf_subset harguments

theorem isOver_template {text : String} {arguments : List Expr}
    (harguments : ∀ e ∈ arguments, e.IsOver names) : (template text arguments).IsOver names :=
  tablesOf_subset harguments

/-- A condition names what its columns name. -/
theorem hereditary_isOver (names : List String) :
    Hereditary (fun _ => True) (IsOver names) fun _ => True where
  value _ := List.nil_subset names
  call := isOver_call
  countRows := List.nil_subset names
  countDistinct he := he
  compare he _ := he
  between he _ _ := he
  among he _ := he
  like he := he
  isNull he := he
  isNotNull he := he
  template _ := isOver_template
  and hleft hright := List.append_subset.2 ⟨hleft, hright⟩
  or hleft hright := List.append_subset.2 ⟨hleft, hright⟩
  not he := he
  truth _ := List.nil_subset names
  null := trivial
  text _ := trivial
  items _ := trivial
  operand _ _ _ := trivial

end Expr

namespace Engine

variable (engine : Engine) {env env' : Env}

mutual
/-- An expression has the same value wherever the tables that it names have the same rows. -/
theorem eval_congr (hown : env.own = env'.own) : ∀ e : Expr,
    (∀ table ∈ e.tables, env.column table = env'.column table) →
      engine.eval [env] env e = engine.eval [env'] env' e
  | .column table name, htables => by
      rw [eval, eval, htables table List.mem_cons_self]
  | .ownColumn name, _ => by rw [eval, eval, hown]
  | .value v, _ => by rw [eval, eval]
  | .call function arguments, htables => by
      simp only [eval, List.map_cons, List.map_nil, evalAll_congr hown arguments htables]
  | .countRows, _ => by rw [eval, eval]; rfl
  | .countDistinct e, htables => by
      simp only [eval, List.map_cons, List.map_nil, eval_congr hown e htables]
  | .compare comparator e v, htables => by rw [eval, eval, eval_congr hown e htables]
  | .between e low high, htables => by rw [eval, eval, eval_congr hown e htables]
  | .among e values, htables => by rw [eval, eval, eval_congr hown e htables]
  | .like e pattern, htables => by simp only [eval, eval_congr hown e htables]
  | .isNull e, htables => by rw [eval, eval, eval_congr hown e htables]
  | .isNotNull e, htables => by rw [eval, eval, eval_congr hown e htables]
  | .template text arguments, htables => by
      rw [eval, eval, evalAll_congr hown arguments htables]
  | .and left right, htables => by
      rw [eval, eval,
        eval_congr hown left fun table h => htables table (List.mem_append_left _ h),
        eval_congr hown right fun table h => htables table (List.mem_append_right _ h)]
  | .or left right, htables => by
      rw [eval, eval,
        eval_congr hown left fun table h => htables table (List.mem_append_left _ h),
        eval_congr hown right fun table h => htables table (List.mem_append_right _ h)]
  | .not e, htables => by rw [eval, eval, eval_congr hown e htables]
  | .truth b, _ => by rw [eval, eval]

theorem evalAll_congr (hown : env.own = env'.own) : ∀ es : List Expr,
    (∀ table ∈ Expr.tablesOf es, env.column table = env'.column table) →
      engine.evalAll [env] env es = engine.evalAll [env'] env' es
  | [], _ => rfl
  | e :: es, htables => by
      rw [evalAll, evalAll,
        eval_congr hown e fun table h => htables table (List.mem_append_left _ h),
        evalAll_congr hown es fun table h => htables table (List.mem_append_right _ h)]
end

end Engine

namespace Scope

/-- Joining further tables leaves the rows that are there. -/
theorem row_append {scope : Scope} (more : Scope) {name : String} (hname : name ∈ scope.names) :
    row (scope ++ more) name = scope.row name := by
  have hfound : (scope.lookup name).isSome = true := by
    obtain ⟨entry, hentry, rfl⟩ := List.mem_map.1 hname
    exact List.lookup_isSome_iff.2 ⟨entry, hentry, BEq.rfl⟩
  obtain ⟨r, hr⟩ := Option.isSome_iff_exists.1 hfound
  rw [row, row, List.lookup_append, hr, Option.some_or]

/-- What a condition says does not change when further tables are joined. -/
theorem keepsScope_append (engine : Engine) {condition : Option Expr} {first : Scope}
    (more : Scope) (hfirst : first ≠ []) (hcondition : ∀ e ∈ condition, e.IsOver first.names) :
    engine.keepsScope condition (first ++ more) = engine.keepsScope condition first := by
  cases condition with
  | none => rfl
  | some e =>
      have hown : (env (first ++ more)).own = first.env.own := by
        cases first with
        | nil => exact absurd rfl hfirst
        | cons entry first => rfl
      have htables : ∀ table ∈ e.tables,
          (env (first ++ more)).column table = first.env.column table := by
        intro table htable
        funext name
        show row (first ++ more) table name = _
        rw [row_append more (hcondition e rfl htable)]
        rfl
      simp only [Engine.keepsScope, Option.all_some, Engine.keeps,
        engine.eval_congr hown e htables]

end Scope

namespace Target

variable {t : Target} {names : List String}

/-- The paths of a filter that has a condition cross no embedded relation. -/
theorem separate_of_condition {stem : String} {f : Filter} {condition : Expr}
    (hcondition : t.condition stem f = .ok condition) :
    ∀ path ∈ f.paths, ∀ hop ∈ t.routeOf path, hop.relation.embedded = false := by
  induction f generalizing condition with
  | comparison c =>
      rw [Target.condition] at hcondition
      obtain ⟨located, operand, column, hlocate, -, hcolumn, -⟩ := comparison_eq_ok hcondition
      intro path hpath
      rw [show path = c.path by simpa [Filter.paths, Filter.leaves] using hpath, routeOf,
        Registry.walk_of_locate hlocate]
      exact (columnOf_eq_ok hcolumn).1
  | fullText f => simp [Filter.paths, Filter.leaves]
  | node connective children ih =>
      rw [Target.condition, conditions_eq_mapM] at hcondition
      obtain ⟨parts, hparts, -⟩ := Result.bind_eq_ok.1 hcondition
      rw [Filter.paths_node]
      intro path hpath
      obtain ⟨child, hmem, hpath⟩ := List.mem_flatMap.1 hpath
      obtain ⟨part, _, hchild⟩ := Result.mapM_eq_ok_mem hparts hmem
      exact ih child hmem hchild path hpath

/-- A condition names the listed table and the tables at the ends of its paths, none of which is
reached through an embedded relation. -/
theorem condition_isOver {stem : String} {f : Filter} {condition : Expr}
    (hcondition : t.condition stem f = .ok condition) (hroot : t.resource.storage ∈ names)
    (hpaths : ∀ path ∈ f.paths, t.tableOf stem (t.routeOf path) ∈ names) :
    condition.IsOver names ∧
      ∀ path ∈ f.paths, ∀ hop ∈ t.routeOf path, hop.relation.embedded = false :=
  ⟨(Expr.hereditary_isOver names).condition hcondition (fun _ _ => trivial)
    (fun _ => Expr.isOver_column hroot) fun path hpath _ => Expr.isOver_column (hpaths path hpath),
    separate_of_condition hcondition⟩

end Target
end Sql
end Listing

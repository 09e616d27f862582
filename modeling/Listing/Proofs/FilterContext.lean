/-
# One comparison in its place

A filter with a hole says where in a tree a comparison stands. Validation and the compilers of the
stores find out about the value of a comparison only through the operand that is read from it, so a
comparison may be exchanged, in whatever place of the tree, for one of the same attribute and
operator from whose value the same operand is read: the request is refused with the same error, or
compiled to the same query.
-/
import Listing.Compiled
import Listing.Proofs.FilterHeight

namespace Listing

namespace Filter

/-- A filter with a hole in the place of one subtree. -/
inductive Context
  | here
  | node (connective : Connective) (before : List Filter) (inside : Context) (after : List Filter)

/-- The filter with a subtree in the hole. -/
def Context.fill : Context → Filter → Filter
  | .here, f => f
  | .node connective before inside after, f =>
    .node connective (before ++ inside.fill f :: after)

/-- The leaves of a tree are those of a subtree between others that do not depend on it. -/
theorem Context.leaves_fill (place : Context) :
    ∃ before after, ∀ f, (place.fill f).leaves = before ++ f.leaves ++ after := by
  induction place with
  | here => exact ⟨[], [], fun f => by simp [fill]⟩
  | node connective before inside after ih =>
      obtain ⟨first, last, hleaves⟩ := ih
      refine ⟨before.flatMap leaves ++ first, last ++ after.flatMap leaves, fun f => ?_⟩
      rw [fill, leaves_node, List.flatMap_append, List.flatMap_cons, hleaves]
      simp only [List.append_assoc]

end Filter

namespace Interpretation

/-- What a tree stands for depends on a subtree only through what that stands for. -/
theorem filter_fill {α : Type} {i : Interpretation α} {f g : Filter}
    (hsame : i.filter f = i.filter g) (place : Filter.Context) :
    i.filter (place.fill f) = i.filter (place.fill g) := by
  induction place with
  | here => exact hsame
  | node connective before inside after ih =>
      simp only [Filter.Context.fill, Interpretation.filter_node, List.map_append, List.map_cons, ih]

end Interpretation

/-- A check of every item sees of one item only what it says of that. -/
theorem Result.forM_exchange {α : Type} {check : α → Result Unit} {a b : α}
    (hsame : check a = check b) (before after : List α) :
    (before ++ [a] ++ after).forM check = (before ++ [b] ++ after).forM check := by
  induction before with
  | nil =>
      show (check a >>= fun _ => after.forM check) = (check b >>= fun _ => after.forM check)
      rw [hsame]
  | cons first before ih =>
      show (check first >>= fun _ => (before ++ [a] ++ after).forM check) =
        (check first >>= fun _ => (before ++ [b] ++ after).forM check)
      rw [ih]

/-- Two comparisons of the same attribute by the same operator, from whose values the same operand
is read, or is refused for the same reason. -/
structure Comparison.Interchangeable (registry : Registry) (resource : Resource)
    (c d : Comparison) : Prop where
  same : d = { c with value := d.value }
  operand : ∀ located, registry.locate resource c.param c.path = .ok located →
    Operand.ofComparison c located.attr = Operand.ofComparison d located.attr

namespace Comparison.Interchangeable

variable {registry : Registry} {resource : Resource} {c d : Comparison}

theorem validate_eq (hsame : c.Interchangeable registry resource d) :
    c.validate registry resource = d.validate registry resource := by
  obtain ⟨hvalue, hoperand⟩ := hsame
  unfold validate
  rw [hvalue] at hoperand ⊢
  dsimp only at hoperand ⊢
  cases hlocate : registry.locate resource c.param c.path with
  | error error => rfl
  | ok located =>
      show (if _ then _ else _) = (if _ then _ else _)
      rw [hoperand located hlocate]

/-- Every relational store compiles both to the same condition. -/
theorem sqlComparison_eq {t : Sql.Target}
    (hsame : c.Interchangeable t.registry t.resource d) (stem : String) :
    t.comparison stem c = t.comparison stem d := by
  obtain ⟨hvalue, hoperand⟩ := hsame
  unfold Sql.Target.comparison
  rw [hvalue] at hoperand ⊢
  dsimp only at hoperand ⊢
  cases hlocate : t.registry.locate t.resource c.param c.path with
  | error error => rfl
  | ok located =>
      show (t.columnOf stem c.param located >>= fun column =>
          Operand.ofComparison c located.attr >>= fun operand => _) =
        (t.columnOf stem c.param located >>= fun column => _ >>= fun operand => _)
      rw [hoperand located hlocate]
      rfl

/-- The document store compiles both to the same filter. -/
theorem documentComparison_eq {t : Document.Target}
    (hsame : c.Interchangeable t.registry t.resource d) (stem : String) :
    t.comparison stem c = t.comparison stem d := by
  obtain ⟨hvalue, hoperand⟩ := hsame
  unfold Document.Target.comparison
  rw [hvalue] at hoperand ⊢
  dsimp only at hoperand ⊢
  cases hlocate : t.registry.locate t.resource c.param c.path with
  | error error => rfl
  | ok located =>
      show (Operand.ofComparison c located.attr >>= fun operand => _) = (_ >>= fun operand => _)
      rw [hoperand located hlocate]
      rfl

/-- The search index compiles both to the same clause. -/
theorem searchIndexComparison_eq {t : SearchIndex.Target}
    (hsame : c.Interchangeable t.registry t.resource d) : t.comparison c = t.comparison d := by
  obtain ⟨hvalue, hoperand⟩ := hsame
  unfold SearchIndex.Target.comparison
  rw [hvalue] at hoperand ⊢
  dsimp only at hoperand ⊢
  split
  · rfl
  · cases hfield : t.field c.param c.path with
    | error error => rfl
    | ok field =>
        obtain ⟨located, hlocate, -⟩ := Result.bind_eq_ok.1 hfield
        show (Operand.ofComparison c field.attr >>= fun operand => _) =
          (Operand.ofComparison { c with value := d.value } field.attr >>= fun operand => _)
        rw [(SearchIndex.Target.field_eq_ok hlocate hfield).2, hoperand located hlocate]

/-- In any place of a tree, exchanging the comparisons changes neither whether the leaves are valid
nor which of them is not. -/
theorem forM_leaves_fill (hsame : c.Interchangeable registry resource d)
    (place : Filter.Context) :
    (place.fill (.comparison c)).leaves.forM (Filter.validateLeaf registry resource) =
      (place.fill (.comparison d)).leaves.forM (Filter.validateLeaf registry resource) := by
  obtain ⟨before, after, hleaves⟩ := place.leaves_fill
  have hvalidate : Filter.validateLeaf registry resource (.comparison c) =
      Filter.validateLeaf registry resource (.comparison d) := hsame.validate_eq
  rw [hleaves, hleaves]
  exact Result.forM_exchange hvalidate before after

/-- The paths of a tree are the same. -/
theorem paths_fill (hsame : c.Interchangeable registry resource d) (place : Filter.Context) :
    (place.fill (.comparison c)).paths = (place.fill (.comparison d)).paths := by
  obtain ⟨before, after, hleaves⟩ := place.leaves_fill
  have hpath : d.path = c.path := by rw [hsame.same]
  simp [Filter.paths, hleaves, Filter.leaves, hpath]

end Comparison.Interchangeable

/-- A request with one comparison in some place of its filter. -/
def Request.withLeaf (request : Request) (place : Filter.Context) (c : Comparison) : Request :=
  { request with filter := some (place.fill (.comparison c)) }

section Exchange

variable {c d : Comparison} (request : Request) (place : Filter.Context)

/-- Every relational store compiles the same statements. -/
theorem Sql.Target.compile_withLeaf {t : Target}
    (hsame : c.Interchangeable t.registry t.resource d) :
    t.compile (request.withLeaf place c) = t.compile (request.withLeaf place d) := by
  have hcondition : ∀ stem, t.condition stem (place.fill (.comparison c)) =
      t.condition stem (place.fill (.comparison d)) := fun stem => by
    have hleaf : (t.compiler stem).filter (.comparison c) =
        (t.compiler stem).filter (.comparison d) := hsame.sqlComparison_eq stem
    rw [← t.filter_compiler, ← t.filter_compiler, Interpretation.filter_fill hleaf]
  unfold compile selection Request.withLeaf
  simp only [Option.mapM_some, Option.map_some, hsame.paths_fill place, hcondition]
  rfl

/-- The document store compiles the same pipelines. -/
theorem Document.Target.compile_withLeaf {t : Target}
    (hsame : c.Interchangeable t.registry t.resource d) :
    t.compile (request.withLeaf place c) = t.compile (request.withLeaf place d) := by
  have hcondition : ∀ stem, t.condition stem (place.fill (.comparison c)) =
      t.condition stem (place.fill (.comparison d)) := fun stem => by
    have hleaf : (t.compiler stem).filter (.comparison c) =
        (t.compiler stem).filter (.comparison d) := hsame.documentComparison_eq stem
    rw [← t.filter_compiler, ← t.filter_compiler, Interpretation.filter_fill hleaf]
  unfold compile Request.withLeaf
  simp only [Option.mapM_some, Option.map_some, hsame.paths_fill place, hcondition]

/-- The search index compiles the same search. -/
theorem SearchIndex.Target.compile_withLeaf {t : Target}
    (hsame : c.Interchangeable t.registry t.resource d) :
    t.compile (request.withLeaf place c) = t.compile (request.withLeaf place d) := by
  have hcondition : t.condition (place.fill (.comparison c)) =
      t.condition (place.fill (.comparison d)) := by
    have hleaf : t.compiler.filter (.comparison c) = t.compiler.filter (.comparison d) :=
      hsame.searchIndexComparison_eq
    rw [← t.filter_compiler, ← t.filter_compiler, Interpretation.filter_fill hleaf]
  unfold compile Request.withLeaf
  simp only [Option.mapM_some, hcondition]

/-- In whatever place of a filter a comparison stands, it may be exchanged for another one from
which the same is read: the request is as valid as before, and every store compiles it to the same
query. -/
theorem Entry.compileRequest_withLeaf (e : Entry) (registry : Registry)
    (hsame : c.Interchangeable registry e.resource d) :
    e.compileRequest registry (request.withLeaf place c) =
      e.compileRequest registry (request.withLeaf place d) := by
  have hvalidate : (request.withLeaf place c).validate registry e.resource =
      (request.withLeaf place d).validate registry e.resource := by
    have hvisit := hsame.forM_leaves_fill place
    rw [← Filter.forEachLeaf_eq, ← Filter.forEachLeaf_eq] at hvisit
    exact congrArg (· >>= _) hvisit
  have hcompile : e.backend.compile registry e.resource (request.withLeaf place c) =
      e.backend.compile registry e.resource (request.withLeaf place d) := by
    cases e.backend with
    | relational dialect functions =>
        exact congrArg (Except.map _) (Sql.Target.compile_withLeaf request place hsame)
    | document functions =>
        exact congrArg (Except.map _) (Document.Target.compile_withLeaf request place hsame)
    | searchIndex =>
        exact congrArg (Except.map _) (SearchIndex.Target.compile_withLeaf request place hsame)
  unfold compileRequest
  rw [hvalidate, hcompile]

end Exchange
end Listing

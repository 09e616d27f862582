/-
# Joins in another order

What was joined can be seen as a function from names to rows. Seen like this, joins that do not
refer to each other commute: a join looks at the row of one name and adds a row under another. So
the order of joins only matters as far as each comes after the one that it refers to, and joins that
come last leave the rows under other names as they were.
-/
import Listing.Proofs.TotalsCount
import Mathlib.Data.Multiset.Bind
import Mathlib.Logic.Function.Basic

namespace Listing.Sql

/-- The rows that were joined, by their names. -/
abbrev View := String → Listing.Record

section Views

variable (engine : Engine) (db : Database)

/-- The rows that a join adds one of. -/
def Join.candidates (j : Join) (view : View) : List Listing.Record :=
  match (db j.table).filter fun r => engine.equal (r j.foreignKey) (view j.parent j.localKey) with
  | [] => [Record.null]
  | rows => rows

/-- What joins make of a view, one after the other. -/
def extend : List Join → View → List View
  | [], view => [view]
  | j :: joins, view =>
    (j.candidates engine db view).flatMap fun r => extend joins (Function.update view j.aliasName r)

end Views

variable {engine : Engine} {db : Database}

theorem Scope.row_append_singleton {scope : Scope} {name : String} (hname : name ∉ scope.names)
    (r : Listing.Record) :
    Scope.row (scope ++ [(name, r)]) = Function.update scope.row name r := by
  funext other
  by_cases hother : other = name
  · have hfresh : scope.lookup name = none := by
      rw [List.lookup_eq_none_iff]
      intro entry hentry
      simpa using fun heq : name = entry.1 => hname (heq ▸ List.mem_map_of_mem hentry)
    rw [hother, Function.update_self, row, List.lookup_append, hfresh, Option.none_or,
      List.lookup_cons, beq_self_eq_true]
    rfl
  · rw [Function.update_of_ne hother, row, row, List.lookup_append, List.lookup_cons,
      beq_false_of_ne hother, List.lookup_nil, Option.or_none]

/-- A join extends a scope by each of the rows that its view leads to. -/
theorem Join.expand_eq_map (j : Join) (scope : Scope) :
    j.expand engine db scope =
      (j.candidates engine db scope.row).map fun r => scope ++ [(j.aliasName, r)] := by
  have hmatching : ((db j.table).filter fun r =>
    engine.equal (r j.foreignKey) (scope.row j.parent j.localKey)) = j.matching engine db scope := rfl
  rw [Join.expand, Join.candidates, hmatching]
  cases j.matching engine db scope <;> rfl

/-- Under different names, joins make of a scope what they make of its view. -/
theorem map_row_expandAll {joins : List Join} {scope : Scope}
    (hnodup : (scope.names ++ joins.map (·.aliasName)).Nodup) :
    (expandAll engine db joins scope).map Scope.row = extend engine db joins scope.row := by
  induction joins generalizing scope with
  | nil => rfl
  | cons j joins ih =>
      rw [List.map_cons, List.append_cons] at hnodup
      have hfresh : j.aliasName ∉ scope.names := by
        intro hmem
        have hnames := (List.nodup_append.1 hnodup).1
        exact (List.nodup_append.1 hnames).2.2 _ hmem _ (List.mem_singleton_self _) rfl
      rw [expandAll, j.expand_eq_map, List.flatMap_map, List.map_flatMap, extend]
      refine List.flatMap_congr fun r _ => ?_
      rw [← Scope.row_append_singleton hfresh]
      apply ih
      rw [Scope.names, List.map_append]
      exact hnodup

theorem candidates_congr (j : Join) {view view' : View} (hparent : view j.parent = view' j.parent) :
    j.candidates engine db view = j.candidates engine db view' := by
  rw [Join.candidates, Join.candidates, hparent]

theorem candidates_ne_nil (j : Join) (view : View) : j.candidates engine db view ≠ [] := by
  unfold Join.candidates
  split
  · simp
  · assumption

theorem extend_append (joins more : List Join) (view : View) :
    extend engine db (joins ++ more) view =
      (extend engine db joins view).flatMap (extend engine db more) := by
  induction joins generalizing view with
  | nil => simp [extend]
  | cons j joins ih =>
      rw [List.cons_append, extend, extend, List.flatMap_assoc]
      exact List.flatMap_congr fun r _ => ih _

/-- Loops over two lists may be exchanged. -/
theorem flatMap_flatMap_perm {α β γ : Type} (xs : List α) (ys : List β) (f : α → β → List γ) :
    (xs.flatMap fun x => ys.flatMap (f x)).Perm (ys.flatMap fun y => xs.flatMap (f · y)) := by
  rw [← Multiset.coe_eq_coe]
  simpa only [Multiset.coe_bind] using
    Multiset.bind_bind (xs : Multiset α) (ys : Multiset β) (f := fun x y => (f x y : Multiset γ))

/-- Joins that do not refer to each other commute. -/
theorem extend_swap {j j' : Join} (hne : j.aliasName ≠ j'.aliasName)
    (hparent : j.parent ≠ j'.aliasName) (hparent' : j'.parent ≠ j.aliasName) (joins : List Join)
    (view : View) :
    (extend engine db (j :: j' :: joins) view).Perm (extend engine db (j' :: j :: joins) view) := by
  have hrows (r : Listing.Record) :
      j'.candidates engine db (Function.update view j.aliasName r) = j'.candidates engine db view :=
    candidates_congr j' (Function.update_of_ne hparent' r view)
  have hrows' (r' : Listing.Record) :
      j.candidates engine db (Function.update view j'.aliasName r') = j.candidates engine db view :=
    candidates_congr j (Function.update_of_ne hparent r' view)
  simp only [extend, hrows, hrows']
  refine (flatMap_flatMap_perm _ _ _).trans (.of_eq ?_)
  refine List.flatMap_congr fun r' _ => List.flatMap_congr fun r _ => ?_
  rw [Function.update_comm hne.symm]

/-- A join may be moved ahead of joins that it does not refer to and that do not refer to it. -/
theorem extend_move {j : Join} {before : List Join}
    (hbefore : ∀ j' ∈ before, j.aliasName ≠ j'.aliasName ∧ j.parent ≠ j'.aliasName ∧
      j'.parent ≠ j.aliasName) (after : List Join) (view : View) :
    (extend engine db (before ++ j :: after) view).Perm
      (extend engine db (j :: (before ++ after)) view) := by
  induction before generalizing view with
  | nil => exact .refl _
  | cons j' before ih =>
      obtain ⟨hne, hparent, hparent'⟩ := hbefore j' List.mem_cons_self
      have hrest := fun view => ih (fun j'' hj'' => hbefore j'' (List.mem_cons_of_mem j' hj'')) view
      refine List.Perm.trans ?_ (extend_swap hne.symm hparent' hparent (before ++ after) view)
      rw [List.cons_append, extend, extend]
      exact List.Perm.flatMap_left _ fun r _ => hrest _

theorem Join.Resolve.of_append {names : List String} {joins more : List Join}
    (hjoins : Join.Resolve names (joins ++ more)) : Join.Resolve names joins := by
  induction joins generalizing names with
  | nil => trivial
  | cons j joins ih => exact ⟨hjoins.1, ih hjoins.2⟩

theorem Join.Resolve.parent_mem {names : List String} {joins : List Join}
    (hjoins : Join.Resolve names joins) {j : Join} (hj : j ∈ joins) :
    j.parent ∈ names ++ joins.map (·.aliasName) := by
  induction joins generalizing names with
  | nil => cases hj
  | cons first joins ih =>
      rcases List.mem_cons.1 hj with rfl | hj
      · exact List.mem_append_left _ hjoins.1
      · simpa using ih hjoins.2 hj

/-- A join need not come in the middle, if its name is there from the start. -/
theorem Join.Resolve.remove {names : List String} {before after : List Join} {j : Join}
    (hjoins : Join.Resolve names (before ++ j :: after)) :
    Join.Resolve (names ++ [j.aliasName]) (before ++ after) := by
  induction before generalizing names with
  | nil => exact hjoins.2
  | cons j' before ih =>
      refine ⟨List.mem_append_left _ hjoins.1, (ih hjoins.2).mono fun name hname => ?_⟩
      simp only [List.mem_append, List.mem_singleton] at hname ⊢
      exact or_right_comm.1 hname

/-- Joins that come after those that they refer to may be put in any such order. -/
theorem extend_perm {names : List String} {joins joins' : List Join} (hperm : joins.Perm joins')
    (hnodup : (names ++ joins.map (·.aliasName)).Nodup) (hjoins : Join.Resolve names joins)
    (hjoins' : Join.Resolve names joins') (view : View) :
    (extend engine db joins view).Perm (extend engine db joins' view) := by
  induction joins generalizing names joins' view with
  | nil => rw [hperm.symm.eq_nil]
  | cons j joins ih =>
      obtain ⟨before, after, rfl⟩ := List.append_of_mem (hperm.subset List.mem_cons_self)
      have hrest : joins.Perm (before ++ after) := (hperm.trans List.perm_middle).cons_inv
      obtain ⟨_, haliases, hdisjoint⟩ := List.nodup_append.1 hnodup
      have hfresh : j.aliasName ∉ joins.map (·.aliasName) := (List.nodup_cons.1 haliases).1
      have hfirst : ∀ j' ∈ before, j.aliasName ≠ j'.aliasName ∧ j.parent ≠ j'.aliasName ∧
          j'.parent ≠ j.aliasName := by
        intro j' hj'
        have hmem : j'.aliasName ∈ joins.map (·.aliasName) :=
          List.mem_map_of_mem (hrest.symm.subset (List.mem_append_left _ hj'))
        refine ⟨fun heq => hfresh (heq ▸ hmem), fun heq => ?_, fun heq => ?_⟩
        · exact hdisjoint _ hjoins.1 _ (List.mem_cons_of_mem _ hmem) heq
        · rcases List.mem_append.1 (hjoins'.of_append.parent_mem hj') with hname | hbefore
          · exact hdisjoint _ hname _ List.mem_cons_self heq
          · obtain ⟨j'', hj'', halias⟩ := List.mem_map.1 hbefore
            exact hfresh (heq ▸ halias ▸ List.mem_map_of_mem
              (hrest.symm.subset (List.mem_append_left _ hj'')))
      refine List.Perm.trans ?_ (extend_move hfirst after view).symm
      rw [extend, extend]
      refine List.Perm.flatMap_left _ fun r _ => ?_
      rw [List.map_cons, List.append_cons] at hnodup
      exact ih hrest hnodup hjoins.2 hjoins'.remove _

/-- Joins leave the rows under other names as they are. -/
theorem eq_of_mem_extend {joins : List Join} {view view' : View}
    (hview : view' ∈ extend engine db joins view) {name : String}
    (hname : name ∉ joins.map (·.aliasName)) : view' name = view name := by
  induction joins generalizing view with
  | nil => rw [List.mem_singleton.1 hview]
  | cons j joins ih =>
      rw [List.map_cons, List.mem_cons, not_or] at hname
      obtain ⟨r, _, hview⟩ := List.mem_flatMap.1 hview
      rw [ih hview hname.2, Function.update_of_ne hname.1]

theorem extend_ne_nil (joins : List Join) (view : View) : extend engine db joins view ≠ [] := by
  induction joins generalizing view with
  | nil => simp [extend]
  | cons j joins ih =>
      have hcandidates : j.candidates engine db view ≠ [] := candidates_ne_nil j view
      obtain ⟨r, hr⟩ := List.exists_mem_of_ne_nil _ hcandidates
      obtain ⟨view', hview'⟩ := List.exists_mem_of_ne_nil _ (ih (Function.update view j.aliasName r))
      exact List.ne_nil_of_mem (List.mem_flatMap.2 ⟨r, hr, hview'⟩)

/-- Joins to one row make one view of a view. -/
theorem extend_of_isSingle {joins : List Join} (hjoins : ∀ j ∈ joins, j.IsSingle engine db)
    (view : View) : ∃ view', extend engine db joins view = [view'] := by
  induction joins generalizing view with
  | nil => exact ⟨view, rfl⟩
  | cons j joins ih =>
      obtain ⟨r, hr⟩ := hjoins j List.mem_cons_self [(j.parent, view j.parent)]
      have hrow : Scope.row [(j.parent, view j.parent)] j.parent = view j.parent := by
        simp [Scope.row]
      rw [j.expand_eq_map, candidates_congr j hrow, List.map_eq_singleton_iff] at hr
      obtain ⟨r', hr', _⟩ := hr
      obtain ⟨view', hview'⟩ := ih (fun j' hj' => hjoins j' (List.mem_cons_of_mem j hj'))
        (Function.update view j.aliasName r')
      exact ⟨view', by rw [extend, hr', List.flatMap_singleton, hview']⟩

end Listing.Sql

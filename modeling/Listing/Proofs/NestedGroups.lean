/-
# Filters over lists of objects

On a search index a comparison through lists asks for one object at their end that satisfies it.
The compiler closes a logical node at a time: it puts the comparisons of a node that pass through
the same lists into one nested clause. For a conjunction this says that one object satisfies all of
them; for a disjunction it says the same as one nested clause for each.

`Reads` gives a filter this meaning over the tree of the request, where nothing is grouped, and a
compiled query holds of a document exactly if the tree reads true of it.
-/
import Listing.Proofs.Compiling
import Listing.Proofs.FilterTree
import Listing.Proofs.Refusal
import Listing.Proofs.Semantics.NestedObjects
import Listing.Proofs.Support.SearchIndex
import Mathlib.Data.List.Induction
import Mathlib.Data.List.Nodup
import Mathlib.Tactic.ByContra

namespace Listing.SearchIndex

section Groups

/-- The clauses of the parts that lie in the given lists. -/
def clausesIn (lists : List String) (parts : List Scoped) : List Clause :=
  (parts.filter fun part => part.lists = lists).map (·.clause)

theorem mem_clausesIn {lists : List String} {parts : List Scoped} {clause : Clause} :
    clause ∈ clausesIn lists parts ↔ ∃ part ∈ parts, part.lists = lists ∧ part.clause = clause := by
  simp [clausesIn, and_assoc]

theorem clausesIn_append (lists : List String) (parts : List Scoped) (part : Scoped) :
    clausesIn lists (parts ++ [part])
      = clausesIn lists parts ++ if part.lists = lists then [part.clause] else [] := by
  by_cases hlists : part.lists = lists <;> simp [clausesIn, hlists]

theorem clausesIn_eq_nil {lists : List String} {parts : List Scoped}
    (hnone : lists ∉ parts.map (·.lists)) : clausesIn lists parts = [] := by
  simpa [clausesIn] using hnone

/-- Every list that a part lies in has one group, of the clauses of all parts in it. -/
structure IsGrouping (parts : List Scoped) (groups : Groups) : Prop where
  nodup : (groups.map (·.1)).Nodup
  mem_keys (lists : List String) : lists ∈ groups.map (·.1) ↔ lists ∈ parts.map (·.lists)
  clauses : ∀ group ∈ groups, group.2 = clausesIn group.1 parts

/-- The lists of a clause become a key, if they are none yet. -/
theorem keys_addToGroup (lists : List String) (clause : Clause) (groups : Groups) :
    (addToGroup lists clause groups).map (·.1)
      = if lists ∈ groups.map (·.1) then groups.map (·.1) else groups.map (·.1) ++ [lists] := by
  induction groups with
  | nil => rfl
  | cons group groups ih =>
      obtain ⟨key, clauses⟩ := group
      by_cases hkey : key = lists
      · simp [addToGroup, hkey]
      · rw [addToGroup, if_neg hkey, List.map_cons, ih]
        by_cases hmem : lists ∈ groups.map (·.1) <;> simp [hmem, Ne.symm hkey]

/-- A group was there before, or is the one that the clause was added to. -/
theorem mem_addToGroup {lists : List String} {clause : Clause} {groups : Groups}
    (hnodup : (groups.map (·.1)).Nodup) {group : List String × List Clause}
    (hgroup : group ∈ addToGroup lists clause groups) :
    (group ∈ groups ∧ group.1 ≠ lists) ∨
      (∃ clauses, (lists, clauses) ∈ groups ∧ group = (lists, clauses ++ [clause])) ∨
      (lists ∉ groups.map (·.1) ∧ group = (lists, [clause])) := by
  induction groups with
  | nil => exact .inr (.inr ⟨by simp, List.mem_singleton.1 hgroup⟩)
  | cons first groups ih =>
      obtain ⟨key, clauses⟩ := first
      obtain ⟨hfresh, hrest⟩ := List.nodup_cons.1 hnodup
      rw [addToGroup] at hgroup
      by_cases hkey : key = lists
      · rw [if_pos hkey] at hgroup
        rcases List.mem_cons.1 hgroup with rfl | htail
        · exact .inr (.inl ⟨clauses, by simp [hkey], by simp [hkey]⟩)
        · refine .inl ⟨List.mem_cons_of_mem _ htail, fun heq => hfresh ?_⟩
          exact List.mem_map.2 ⟨group, htail, heq.trans hkey.symm⟩
      · rw [if_neg hkey] at hgroup
        rcases List.mem_cons.1 hgroup with rfl | htail
        · exact .inl ⟨by simp, hkey⟩
        · rcases ih hrest htail with ⟨hmem, hne⟩ | ⟨found, hmem, heq⟩ | ⟨hnone, heq⟩
          · exact .inl ⟨List.mem_cons_of_mem _ hmem, hne⟩
          · exact .inr (.inl ⟨found, List.mem_cons_of_mem _ hmem, heq⟩)
          · exact .inr (.inr ⟨by simpa [Ne.symm hkey] using hnone, heq⟩)

/-- Adding the clause of one more part groups the parts with it. -/
theorem IsGrouping.add {parts : List Scoped} {groups : Groups} (hgroups : IsGrouping parts groups)
    (part : Scoped) :
    IsGrouping (parts ++ [part]) (addToGroup part.lists part.clause groups) where
  nodup := by
    rw [keys_addToGroup]
    split
    · exact hgroups.nodup
    · rename_i hfresh
      exact List.nodup_append.2 ⟨hgroups.nodup, List.nodup_singleton _, by
        intro key hkey other hother heq
        rw [heq, List.mem_singleton.1 hother] at hkey
        exact hfresh hkey⟩
  mem_keys lists := by
    rw [keys_addToGroup, List.map_append, List.mem_append, ← hgroups.mem_keys lists]
    split
    · rename_i hmem
      refine ⟨.inl, fun hlists => hlists.elim id fun hlast => ?_⟩
      rw [List.mem_singleton.1 hlast]
      exact hmem
    · rw [List.mem_append]
      rfl
  clauses group hgroup := by
    rw [clausesIn_append]
    rcases mem_addToGroup hgroups.nodup hgroup with
      ⟨hmem, hne⟩ | ⟨clauses, hmem, rfl⟩ | ⟨hnone, rfl⟩
    · rw [if_neg (Ne.symm hne), List.append_nil]
      exact hgroups.clauses group hmem
    · rw [if_pos rfl, ← hgroups.clauses _ hmem]
    · rw [if_pos rfl, clausesIn_eq_nil (mt (hgroups.mem_keys _).2 hnone), List.nil_append]

theorem isGrouping_foldl (parts : List Scoped) :
    IsGrouping parts
      (parts.foldl (fun groups part => addToGroup part.lists part.clause groups) []) := by
  induction parts using List.reverseRecOn with
  | nil => exact ⟨List.nodup_nil, fun _ => Iff.rfl, fun _ hgroup => absurd hgroup (by simp)⟩
  | append_singleton parts part ih =>
      rw [List.foldl_append]
      exact ih.add part

/-- The groups of some parts: the clauses in each of the lists that a part lies in. -/
theorem mem_groupsOf {parts : List Scoped} {group : List String × List Clause} :
    group ∈ groupsOf parts ↔
      ∃ part ∈ parts, part.lists ≠ [] ∧ group = (part.lists, clausesIn part.lists parts) := by
  have hgroups := isGrouping_foldl (parts.filter (! ·.lists.isEmpty))
  have hkey (lists : List String) :
      lists ∈ (groupsOf parts).map (·.1) ↔ ∃ part ∈ parts, part.lists ≠ [] ∧ part.lists = lists := by
    rw [groupsOf, hgroups.mem_keys]
    simp [and_assoc]
  have hclauses {lists : List String} (hlists : lists ≠ []) :
      clausesIn lists (parts.filter (! ·.lists.isEmpty)) = clausesIn lists parts := by
    rw [clausesIn, clausesIn, List.filter_filter]
    congr 1
    refine List.filter_congr fun part _ => ?_
    by_cases heq : part.lists = lists <;> simp [heq, hlists]
  constructor
  · intro hgroup
    obtain ⟨part, hpart, hne, heq⟩ := (hkey group.1).1 (List.mem_map_of_mem hgroup)
    refine ⟨part, hpart, hne, Prod.ext heq.symm ?_⟩
    rw [hgroups.clauses group hgroup, heq, hclauses (heq ▸ hne)]
  · rintro ⟨part, hpart, hne, rfl⟩
    obtain ⟨group, hgroup, heq⟩ := List.mem_map.1 ((hkey part.lists).2 ⟨part, hpart, hne, rfl⟩)
    have hsame : group = (part.lists, clausesIn part.lists parts) := by
      refine Prod.ext heq ?_
      rw [hgroups.clauses group hgroup, heq, hclauses hne]
    exact hsame ▸ hgroup

theorem mem_plainOf {parts : List Scoped} {clause : Clause} :
    clause ∈ plainOf parts ↔ ∃ part ∈ parts, part.lists = [] ∧ part.clause = clause := by
  simp [plainOf, and_assoc]

end Groups

section Reading

variable {α : Type} (t : Target) (index : Index α)

/-- The lists that the path of a comparison passes through, outermost first. -/
def Target.listsOf (path : Path) : List String :=
  listPaths (t.registry.walk t.resource path.relations).1

/-- An object satisfies the test of a comparison, a negated one by failing the positive test. -/
def Target.Satisfies (c : Comparison) (o : α) : Prop :=
  ∃ field operand clause, t.field c.param c.path = .ok field ∧
    Operand.ofComparison c field.attr = .ok operand ∧
    fieldClause c.param c.operator.positive field operand = .ok clause ∧
    (index.holds o clause = true ↔ c.operator.isNegated = false)

/-- What a filter says of a document. -/
def Target.Reads (o : α) : Filter → Prop
  | .comparison c => ∃ inner ∈ index.chains o (t.listsOf c.path), t.Satisfies index c inner
  | .fullText f => index.holds o (t.fullText f) = true
  | .node .or children => ∃ child, ∃ _ : child ∈ children, Reads o child
  | .node .not children => ∀ child, child ∈ children → ¬ Reads o child
  | .node .and children =>
    (∀ child, child ∈ children → (∀ c, child = .comparison c → t.listsOf c.path = []) →
      Reads o child) ∧
    -- One chain for all comparisons of the conjunction that pass through the same lists.
    ∀ c, .comparison c ∈ children → t.listsOf c.path ≠ [] →
      ∃ inner ∈ index.chains o (t.listsOf c.path), ∀ other, .comparison other ∈ children →
        t.listsOf other.path = t.listsOf c.path → t.Satisfies index other inner

variable {t index}

omit index in
/-- What the part of a comparison is made of. -/
theorem Target.comparison_eq_ok {c : Comparison} {part : Scoped}
    (hcomparison : t.comparison c = .ok part) :
    ∃ field operand clause, t.field c.param c.path = .ok field ∧
      Operand.ofComparison c field.attr = .ok operand ∧
      fieldClause c.param c.operator.positive field operand = .ok clause ∧
      part = { clause := .negateIf c.operator.isNegated clause, lists := t.listsOf c.path } := by
  cases hfunction : c.function with
  | some f => simp [Target.comparison, hfunction] at hcomparison
  | none =>
      simp only [Target.comparison, hfunction] at hcomparison
      obtain ⟨field, hfield, hrest⟩ := Result.bind_eq_ok.1 hcomparison
      obtain ⟨operand, hoperand, hrest⟩ := Result.bind_eq_ok.1 hrest
      obtain ⟨clause, hclause, hrest⟩ := Result.bind_eq_ok.1 hrest
      cases hrest
      obtain ⟨located, hlocate, _⟩ := Result.bind_eq_ok.1 hfield
      have hlists : field.lists = t.listsOf c.path := by
        rw [Target.listsOf, Registry.walk_of_locate hlocate]
        exact (Target.field_eq_ok hlocate hfield).1
      exact ⟨field, operand, clause, hfield, hoperand, hclause, by rw [hlists]⟩

omit index in
theorem Target.lists_of_comparison {c : Comparison} {part : Scoped}
    (hpart : t.condition (.comparison c) = .ok part) : part.lists = t.listsOf c.path := by
  rw [Target.condition] at hpart
  obtain ⟨_, _, _, _, _, _, rfl⟩ := Target.comparison_eq_ok hpart
  rfl

/-- The clause of a comparison is the test of it. -/
theorem Target.holds_of_comparison {c : Comparison} {part : Scoped}
    (hpart : t.condition (.comparison c) = .ok part) (o : α) :
    index.holds o part.clause = true ↔ t.Satisfies index c o := by
  rw [Target.condition] at hpart
  obtain ⟨field, operand, clause, hfield, hoperand, hclause, rfl⟩ :=
    Target.comparison_eq_ok hpart
  have hholds : index.holds o (.negateIf c.operator.isNegated clause) = true ↔
      (index.holds o clause = true ↔ c.operator.isNegated = false) := by
    rw [Index.holds_negateIf]
    cases c.operator.isNegated <;> cases index.holds o clause <;> simp
  rw [hholds]
  constructor
  · exact fun hiff => ⟨field, operand, clause, hfield, hoperand, hclause, hiff⟩
  · rintro ⟨field', operand', clause', hfield', hoperand', hclause', hiff⟩
    obtain rfl := Except.ok.inj (hfield.symm.trans hfield')
    obtain rfl := Except.ok.inj (hoperand.symm.trans hoperand')
    obtain rfl := Except.ok.inj (hclause.symm.trans hclause')
    exact hiff

omit index in
/-- Only a comparison through lists leaves its clause to be put into lists. -/
theorem Target.lists_eq_nil_iff {f : Filter} {part : Scoped} (hpart : t.condition f = .ok part) :
    part.lists = [] ↔ ∀ c, f = .comparison c → t.listsOf c.path = [] := by
  cases f with
  | comparison c => simp [Target.lists_of_comparison hpart]
  | fullText f =>
      rw [Target.condition] at hpart
      cases hpart
      simp
  | node connective children =>
      rw [Target.condition] at hpart
      obtain ⟨parts, _, hrest⟩ := Result.bind_eq_ok.1 hpart
      cases hrest
      simp

omit index in
theorem Target.comparison_of_lists {f : Filter} {part : Scoped} (hpart : t.condition f = .ok part)
    (hlists : part.lists ≠ []) : ∃ c, f = .comparison c := by
  by_contra hnone
  exact hlists ((Target.lists_eq_nil_iff hpart).2 fun c hc => absurd ⟨c, hc⟩ hnone)

/-- A part holds of a document if the object at the end of one chain meets its clause. -/
theorem holds_close (o : α) (part : Scoped) :
    index.holds o part.close = true ↔
      ∃ inner ∈ index.chains o part.lists, index.holds inner part.clause = true := by
  rw [Scoped.close, Index.holds_inLists, List.any_eq_true]

/-- A conjunction holds if what lies in no list holds, and one object in each of the lists meets
all that lies in them. -/
theorem holds_connect_and (o : α) (parts : List Scoped) :
    index.holds o (connect .and parts) = true ↔
      (∀ part ∈ parts, part.lists = [] → index.holds o part.close = true) ∧
      ∀ part ∈ parts, part.lists ≠ [] → ∃ inner ∈ index.chains o part.lists,
        ∀ other ∈ parts, other.lists = part.lists → index.holds inner other.clause = true := by
  have hplain : (∀ clause ∈ plainOf parts, index.holds o clause = true) ↔
      ∀ part ∈ parts, part.lists = [] → index.holds o part.close = true := by
    constructor
    · intro hall part hpart hlists
      rw [Scoped.close, hlists]
      exact hall _ (mem_plainOf.2 ⟨part, hpart, hlists, rfl⟩)
    · intro hall clause hclause
      obtain ⟨part, hpart, hlists, rfl⟩ := mem_plainOf.1 hclause
      have hholds := hall part hpart hlists
      rw [Scoped.close, hlists] at hholds
      exact hholds
  have hgroup (lists : List String) :
      index.holds o (closeGroup .and lists (clausesIn lists parts)) = true ↔
        ∃ inner ∈ index.chains o lists, ∀ other ∈ parts, other.lists = lists →
          index.holds inner other.clause = true := by
    simp only [closeGroup, Index.holds_inLists, Index.holds_allOf, List.any_eq_true,
      List.all_eq_true, mem_clausesIn]
    refine exists_congr fun inner => and_congr_right fun _ => ?_
    constructor
    · exact fun hall other hother hlists => hall other.clause ⟨other, hother, hlists, rfl⟩
    · rintro hall _ ⟨other, hother, hlists, rfl⟩
      exact hall other hother hlists
  rw [connect, Index.holds_allOf, List.all_append, Bool.and_eq_true, and_comm, List.all_eq_true,
    hplain, List.all_map, List.all_eq_true]
  refine and_congr_right fun _ => ?_
  constructor
  · intro hall part hpart hlists
    exact (hgroup part.lists).1 (hall _ (mem_groupsOf.2 ⟨part, hpart, hlists, rfl⟩))
  · intro hall group hmem
    obtain ⟨part, hpart, hlists, rfl⟩ := mem_groupsOf.1 hmem
    exact (hgroup part.lists).2 (hall part hpart hlists)

/-- A disjunction holds if one of its parts does: an object that meets one of the clauses of a
group is an object that meets the clause of one part. -/
theorem holds_connect_or (o : α) (parts : List Scoped) :
    index.holds o (connect .or parts) = true ↔
      ∃ part ∈ parts, index.holds o part.close = true := by
  have hgroup (lists : List String) :
      index.holds o (closeGroup .or lists (clausesIn lists parts)) = true ↔
        ∃ part ∈ parts, part.lists = lists ∧ index.holds o part.close = true := by
    simp only [closeGroup, Index.holds_inLists, Index.holds_anyOf, List.any_eq_true, mem_clausesIn,
      holds_close]
    constructor
    · rintro ⟨inner, hinner, _, ⟨part, hpart, rfl, rfl⟩, hholds⟩
      exact ⟨part, hpart, rfl, inner, hinner, hholds⟩
    · rintro ⟨part, hpart, rfl, inner, hinner, hholds⟩
      exact ⟨inner, hinner, part.clause, ⟨part, hpart, rfl, rfl⟩, hholds⟩
  rw [connect, Index.holds_anyOf, List.any_append, Bool.or_eq_true, List.any_map,
    List.any_eq_true, List.any_eq_true]
  constructor
  · rintro (⟨group, hmem, hholds⟩ | ⟨clause, hclause, hholds⟩)
    · obtain ⟨first, hfirst, _, rfl⟩ := mem_groupsOf.1 hmem
      obtain ⟨part, hpart, _, hpartHolds⟩ := (hgroup first.lists).1 hholds
      exact ⟨part, hpart, hpartHolds⟩
    · obtain ⟨part, hpart, hlists, rfl⟩ := mem_plainOf.1 hclause
      refine ⟨part, hpart, ?_⟩
      rw [Scoped.close, hlists]
      exact hholds
  · rintro ⟨part, hpart, hholds⟩
    by_cases hlists : part.lists = []
    · refine .inr ⟨part.clause, mem_plainOf.2 ⟨part, hpart, hlists, rfl⟩, ?_⟩
      rw [Scoped.close, hlists] at hholds
      exact hholds
    · exact .inl ⟨_, mem_groupsOf.2 ⟨part, hpart, hlists, rfl⟩,
        (hgroup part.lists).2 ⟨part, hpart, rfl, hholds⟩⟩

/-- A negation holds if its only part does not. -/
theorem holds_connect_not (o : α) (part : Scoped) :
    index.holds o (connect .not [part]) = true ↔ ¬ index.holds o part.close = true := by
  have hclauses : connect .not [part] = .none [part.close] := by
    by_cases hlists : part.lists = []
    · simp [connect, groupsOf, plainOf, Scoped.close, Clause.inLists, hlists]
    · simp [connect, groupsOf, plainOf, addToGroup, closeGroup, Scoped.close, Clause.allOf, hlists]
  rw [hclauses, Index.holds_none]
  simp

/-- The parts in lists are those of the comparisons through lists. -/
theorem Target.grouped_iff {children : List Filter} {parts : List Scoped}
    (hparts : children.mapM t.condition = .ok parts) (o : α) :
    (∀ part ∈ parts, part.lists ≠ [] → ∃ inner ∈ index.chains o part.lists,
      ∀ other ∈ parts, other.lists = part.lists → index.holds inner other.clause = true) ↔
    ∀ c, .comparison c ∈ children → t.listsOf c.path ≠ [] →
      ∃ inner ∈ index.chains o (t.listsOf c.path), ∀ other, .comparison other ∈ children →
        t.listsOf other.path = t.listsOf c.path → t.Satisfies index other inner := by
  constructor
  · intro hall c hc hlists
    obtain ⟨part, hmem, hpart⟩ := Result.mapM_eq_ok_mem hparts hc
    have hsame := Target.lists_of_comparison hpart
    obtain ⟨inner, hinner, hmeets⟩ := hall part hmem (hsame ▸ hlists)
    refine ⟨inner, hsame ▸ hinner, fun other hother hequal => ?_⟩
    obtain ⟨otherPart, hotherMem, hotherPart⟩ := Result.mapM_eq_ok_mem hparts hother
    refine (Target.holds_of_comparison hotherPart inner).1 (hmeets otherPart hotherMem ?_)
    rw [Target.lists_of_comparison hotherPart, hequal, hsame]
  · intro hall part hmem hlists
    obtain ⟨f, hf, hpart⟩ := Result.mem_of_mapM_eq_ok hparts hmem
    obtain ⟨c, rfl⟩ := Target.comparison_of_lists hpart hlists
    have hsame := Target.lists_of_comparison hpart
    obtain ⟨inner, hinner, hsatisfies⟩ := hall c hf (hsame ▸ hlists)
    refine ⟨inner, hsame ▸ hinner, fun otherPart hotherMem hequal => ?_⟩
    obtain ⟨g, hg, hotherPart⟩ := Result.mem_of_mapM_eq_ok hparts hotherMem
    obtain ⟨other, rfl⟩ := Target.comparison_of_lists hotherPart (hequal ▸ hlists)
    refine (Target.holds_of_comparison hotherPart inner).2 (hsatisfies other hg ?_)
    rw [← Target.lists_of_comparison hotherPart, hequal, hsame]

/-- The clause of a filter holds of a document exactly if the filter reads true of it. -/
theorem Target.holds_condition_iff {p : Filter → Prop} {f : Filter} (hbuilt : f.Built p)
    {part : Scoped} (hpart : t.condition f = .ok part) (o : α) :
    index.holds o part.close = true ↔ t.Reads index o f := by
  induction hbuilt generalizing part with
  | comparison c _ =>
      rw [holds_close, Target.Reads, Target.lists_of_comparison hpart]
      exact exists_congr fun inner => and_congr_right fun _ => Target.holds_of_comparison hpart inner
  | fullText f _ =>
      rw [Target.condition] at hpart
      cases hpart
      rw [Target.Reads]
      rfl
  | node connective children nonempty single built ih =>
      rw [Target.condition, Target.conditions_eq_mapM] at hpart
      obtain ⟨parts, hparts, hrest⟩ := Result.bind_eq_ok.1 hpart
      cases hrest
      have hclose : Scoped.close { clause := connect connective parts }
          = connect connective parts := rfl
      rw [hclose]
      cases connective with
      | or =>
          rw [holds_connect_or, Target.Reads]
          constructor
          · rintro ⟨part, hmem, hholds⟩
            obtain ⟨child, hchild, hcompiled⟩ := Result.mem_of_mapM_eq_ok hparts hmem
            exact ⟨child, hchild, (ih child hchild hcompiled).1 hholds⟩
          · rintro ⟨child, hchild, hreads⟩
            obtain ⟨part, hmem, hcompiled⟩ := Result.mapM_eq_ok_mem hparts hchild
            exact ⟨part, hmem, (ih child hchild hcompiled).2 hreads⟩
      | not =>
          obtain ⟨child, rfl⟩ := List.length_eq_one_iff.1 (single rfl)
          obtain ⟨part, rfl⟩ := List.length_eq_one_iff.1 (Result.length_of_mapM_eq_ok hparts)
          obtain ⟨_, hmem, hcompiled⟩ := Result.mapM_eq_ok_mem hparts (List.mem_singleton_self child)
          rw [List.mem_singleton.1 hmem] at hcompiled
          rw [holds_connect_not, Target.Reads, ih child (by simp) hcompiled]
          simp
      | and =>
          rw [holds_connect_and, Target.Reads]
          refine and_congr ?_ ?_
          · -- The children that lie in no list, by their parts.
            constructor
            · intro hall child hchild hplain
              obtain ⟨part, hmem, hcompiled⟩ := Result.mapM_eq_ok_mem hparts hchild
              exact (ih child hchild hcompiled).1
                (hall part hmem ((Target.lists_eq_nil_iff hcompiled).2 hplain))
            · intro hall part hmem hlists
              obtain ⟨child, hchild, hcompiled⟩ := Result.mem_of_mapM_eq_ok hparts hmem
              exact (ih child hchild hcompiled).2
                (hall child hchild ((Target.lists_eq_nil_iff hcompiled).1 hlists))
          · exact Target.grouped_iff hparts o

variable (index) in
/-- A query without a filter finds every document. -/
theorem Target.holds_unfiltered {request : Request} {query : Query}
    (hcompile : t.compile request = .ok query) (hnone : request.filter = none) (o : α) :
    index.holds o query.clause = true := by
  obtain ⟨filter, sort, _, _, hfilter, -, -, -, rfl⟩ := Target.compile_eq_ok_iff.1 hcompile
  rw [hnone] at hfilter
  cases hfilter
  simp [Index.holds, Engine.holds]

variable (index) in
/-- A query finds what the clause of its filter holds of; not ranking it makes no difference. -/
theorem Target.holds_filtered {request : Request} {query : Query}
    (hcompile : t.compile request = .ok query) {f : Filter} (hf : request.filter = some f) :
    ∃ part, t.condition f = .ok part ∧
      ∀ o : α, index.holds o query.clause = index.holds o part.close := by
  obtain ⟨filter, sort, _, _, hfilter, -, -, -, rfl⟩ := Target.compile_eq_ok_iff.1 hcompile
  rw [hf] at hfilter
  obtain ⟨part, hpart, hsome⟩ := Result.map_eq_ok.1 hfilter
  cases hsome
  refine ⟨part, hpart, fun o => ?_⟩
  cases sort.isEmpty <;> simp [Index.holds]

/-- A query finds exactly the documents that the filter of its request reads true of. -/
theorem Target.compile_holds_iff (t : Target) (index : Index α) {p : Filter → Prop}
    {request : Request} {query : Query} (hbuilt : ∀ f ∈ request.filter, f.Built p)
    (hcompile : t.compile request = .ok query) (o : α) :
    index.holds o query.clause = true ↔ ∀ f ∈ request.filter, t.Reads index o f := by
  cases hgiven : request.filter with
  | none =>
      have hall := Target.holds_unfiltered index hcompile hgiven o
      simp [hall]
  | some f =>
      obtain ⟨part, hpart, hholds⟩ := Target.holds_filtered index hcompile hgiven
      simp only [hholds, Option.mem_some_iff, forall_eq']
      exact Target.holds_condition_iff (hbuilt f hgiven) hpart o

end Reading

namespace Blog

/-- Replies to a comment on an article; each list is stored inside of what it belongs to. -/
def reply : Resource where
  name := "reply"
  storage := "replies"
  attributes := [{ name := "author", kind := .string }]

def comment : Resource where
  name := "comment"
  storage := "comments"
  attributes := [{ name := "author", kind := .string }, { name := "likes", kind := .numeric }]
  relations := [.within "replies" "reply" true]

def article : Resource where
  name := "article"
  storage := "articles"
  attributes := [{ name := "title", kind := .string }]
  relations := [.within "comments" "comment" true]

def target : Target where
  registry := { entries := [⟨article, .searchIndex⟩, ⟨comment, .searchIndex⟩,
    ⟨reply, .searchIndex⟩] }
  resource := article

/-- An article, a comment or a reply, with what was written below it. -/
inductive Post
  | mk (author : String) (likes : Rat) (below : List Post)

def index : Index Post where
  engine := ⟨fun _ _ _ => false, fun _ _ => false, fun _ _ _ => false⟩
  fields := fun ⟨author, likes, _⟩ path =>
    if path = "comments.likes" then .number likes
    else if path ∈ ["comments.author", "comments.replies.author"] then .text author
    else .null
  objects := fun ⟨_, _, below⟩ _ => below

/-- A comparison of an attribute of comments, or of their replies. -/
def compare (relations : List String) (attr : String) (operator : Operator) (value : Json) :
    Filter :=
  .comparison ⟨(Path.mk relations attr).label, ⟨relations, attr⟩, operator, none, value⟩

/-- Articles with a comment of Ann that was liked five times, and with no reply of Bob. -/
def filter : Filter :=
  .node .and [compare ["comments"] "author" .exact (.string "Ann"),
    compare ["comments"] "likes" .gte (.int 5),
    .node .not [compare ["comments", "replies"] "author" .exact (.string "Bob")]]

/-- The query for them. -/
def query : Query where
  index := "articles"
  clause := .all [
    .nested "comments" (.all [.term "comments.author" (.string "Ann"),
      .range "comments.likes" [(.gte, .int 5)]]),
    .none [.nested "comments" (.nested "comments.replies"
      (.term "comments.replies.author" (.string "Bob")))]]
  sort := []
  offset := 0
  size := none
  countAll := false
  aggregations := []
  dimensions := []
  metrics := []

theorem compile_filter : target.compile { filter } = .ok query := rfl

/-- Two comments do not have together what one comment has to have. -/
theorem compile_holds_iff_liked :
    (∀ f ∈ some filter, target.Reads index
      ⟨"Cid", 0, [⟨"Ann", 7, [⟨"Cid", 0, []⟩]⟩, ⟨"Bob", 0, []⟩]⟩ f) ∧
    ¬ ∀ f ∈ some filter, target.Reads index ⟨"Cid", 0, [⟨"Ann", 1, []⟩, ⟨"Bob", 9, []⟩]⟩ f := by
  have hnot : (Filter.node .not [compare ["comments", "replies"] "author" .exact
      (.string "Bob")]).Built fun _ => True :=
    .node .not _ (by simp) (fun _ => rfl) (by simpa using .comparison _ trivial)
  have hbuilt : ∀ f ∈ some filter, f.Built fun _ => True := by
    rintro _ ⟨⟩
    refine .node .and _ (by simp) (by simp) ?_
    simpa [hnot] using ⟨.comparison _ trivial, .comparison _ trivial⟩
  constructor
  · exact (Target.compile_holds_iff target index hbuilt compile_filter _).1 (by decide)
  · rw [← Target.compile_holds_iff target index hbuilt compile_filter]
    decide

end Blog
end Listing.SearchIndex

/-
# Filter trees as reading builds them

Reading combines filters so that a logical node has at least two children and a negation exactly
one. `Built` records the part of this that the stores rely on, together with a property of the
leaves, so that what reading makes sure of at one leaf can be carried to the whole tree.

The module also supplies the induction over a tree in which the hypothesis holds of every child,
and the leaves of a list of trees as a plain list operation.
-/
import Listing.Filter.Builder

namespace Listing.Filter

/-- Induction over a filter tree: a node may use the statement for all of its children. -/
@[elab_as_elim, induction_eliminator]
theorem treeInduction {motive : Filter → Prop}
    (comparison : ∀ c, motive (.comparison c)) (fullText : ∀ f, motive (.fullText f))
    (node : ∀ connective children, (∀ child ∈ children, motive child) →
      motive (.node connective children)) : ∀ f, motive f
  | .comparison c => comparison c
  | .fullText f => fullText f
  | .node connective children =>
      node connective children fun child _ => treeInduction comparison fullText node child

/-- The leaves of several trees are those of each, one after the other. -/
theorem leavesOf_eq_flatMap (fs : List Filter) : leavesOf fs = fs.flatMap leaves := by
  induction fs with
  | nil => rfl
  | cons f fs ih =>
      rw [leavesOf, ih]
      rfl

theorem leaves_node (connective : Connective) (children : List Filter) :
    leaves (.node connective children) = children.flatMap leaves := by
  rw [leaves, leavesOf_eq_flatMap]

section

variable {m : Type → Type} [Monad m] [LawfulMonad m] (visit : Filter → m Unit)

mutual
/-- Visiting a tree visits the list of its leaves. -/
theorem forEachLeaf_eq : ∀ f : Filter, f.forEachLeaf visit = f.leaves.forM visit
  | .comparison c => by simp [forEachLeaf, leaves]
  | .fullText f => by simp [forEachLeaf, leaves]
  | .node connective children => by rw [forEachLeaf, leaves, forEachLeafOf_eq children]

theorem forEachLeafOf_eq : ∀ fs : List Filter, forEachLeafOf visit fs = (leavesOf fs).forM visit
  | [] => rfl
  | f :: fs => by
      rw [forEachLeafOf, leavesOf, forEachLeaf_eq f, forEachLeafOf_eq fs]
      exact List.forM_append.symm
end

end

/-- A tree in which every node has a child, a negation exactly one, and every leaf satisfies
`p`. -/
inductive Built (p : Filter → Prop) : Filter → Prop
  | comparison (c : Comparison) (holds : p (.comparison c)) : Built p (.comparison c)
  | fullText (f : FullText) (holds : p (.fullText f)) : Built p (.fullText f)
  | node (connective : Connective) (children : List Filter) (nonempty : children ≠ [])
      (single : connective = .not → children.length = 1)
      (built : ∀ child ∈ children, Built p child) : Built p (.node connective children)

namespace Built

variable {p q : Filter → Prop}

/-- Every leaf of a built tree has the property. -/
theorem of_mem_leaves {f : Filter} (hbuilt : Built p f) : ∀ leaf ∈ f.leaves, p leaf := by
  induction hbuilt with
  | comparison c holds =>
      intro leaf hleaf
      rw [List.mem_singleton.1 hleaf]
      exact holds
  | fullText f holds =>
      intro leaf hleaf
      rw [List.mem_singleton.1 hleaf]
      exact holds
  | node connective children nonempty single built ih =>
      intro leaf hleaf
      rw [leaves_node] at hleaf
      obtain ⟨child, hchild, hmem⟩ := List.mem_flatMap.1 hleaf
      exact ih child hchild leaf hmem

/-- A weaker property of the leaves is one of the tree as well. -/
theorem mono {f : Filter} (hbuilt : Built p f) (hweaker : ∀ leaf, p leaf → q leaf) :
    Built q f := by
  induction hbuilt with
  | comparison c holds => exact .comparison c (hweaker _ holds)
  | fullText f holds => exact .fullText f (hweaker _ holds)
  | node connective children nonempty single built ih =>
      exact .node connective children nonempty single ih

/-- A property that holds at all leaves of a built tree may be added to that of the tree. -/
theorem and_leaves {f : Filter} (hbuilt : Built p f) (hleaves : ∀ leaf ∈ f.leaves, q leaf) :
    Built (fun leaf => p leaf ∧ q leaf) f := by
  induction hbuilt with
  | comparison c holds => exact .comparison c ⟨holds, hleaves _ (by simp [leaves])⟩
  | fullText f holds => exact .fullText f ⟨holds, hleaves _ (by simp [leaves])⟩
  | node connective children nonempty single built ih =>
      refine .node connective children nonempty single fun child hchild => ?_
      refine ih child hchild fun leaf hleaf => hleaves leaf ?_
      rw [leaves_node]
      exact List.mem_flatMap.2 ⟨child, hchild, hleaf⟩

theorem pair {f g : Filter} (hf : Built p f) (hg : Built p g) : ∀ h ∈ [f, g], Built p h := by
  intro h hmem
  rcases List.mem_cons.1 hmem with rfl | hlast
  · exact hf
  · rw [List.mem_singleton.1 hlast]
    exact hg

/-- Combining built trees by a conjunction or a disjunction builds a tree. -/
theorem combine {connective : Connective} (hword : connective ≠ .not) {fs : List Filter}
    (hbuilt : ∀ f ∈ fs, Built p f) : ∀ f ∈ Filter.combine connective fs, Built p f := by
  match fs with
  | [] =>
      intro f hf
      cases hf
  | [g] =>
      intro f hf
      cases hf
      exact hbuilt g (by simp)
  | g :: h :: fs =>
      intro f hf
      cases hf
      exact .node connective (g :: h :: fs) (by simp) (fun hnot => absurd hnot hword) hbuilt

/-- Whatever word combines them, built trees give a built tree. -/
theorem join (connective : Connective) {fs : List Filter} (hbuilt : ∀ f ∈ fs, Built p f) :
    ∀ f ∈ connective.join fs, Built p f := by
  intro f hf
  cases connective with
  | and => exact combine (by simp) hbuilt f hf
  | or => exact combine (by simp) hbuilt f hf
  | not =>
      obtain ⟨child, hchild, rfl⟩ := Option.map_eq_some_iff.1 hf
      refine .node .not [child] (by simp) (fun _ => rfl) fun g hg => ?_
      rw [List.mem_singleton.1 hg]
      exact combine (by simp) hbuilt child hchild

end Built
end Listing.Filter

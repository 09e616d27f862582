/-
# The shape of the trees that are built

Filters are put together in six places: the entries of an object, an object or a list under a word,
the documents of several parameters, the simple parameters, and both in the end. All of them go by
way of the same two functions, which leave a single filter as it is, so that whatever is nested in
whatever way, a conjunction or a disjunction has at least two children and a negation exactly one.

A visit of the tree goes down to the leaves in the order in which they stand in it. Where a leaf
stands is told by the numbers of the children that lead to it, and one leaf stands to the left of
another if its place comes first in lexicographic order.
-/
import Listing.Proofs.FilterMeaning
import Listing.Proofs.Reading
import Mathlib.Data.List.Lex

namespace Listing

/-- How many children a node may have: a negation one, any other node several. -/
def Connective.Fits : Connective → Nat → Prop
  | .not, count => count = 1
  | .and, count | .or, count => 2 ≤ count

namespace Filter

/-- The filters below a node. -/
def children : Filter → List Filter
  | .node _ children => children
  | _ => []

/-- The subtree that the numbers of children lead to. -/
def subtree? (f : Filter) : List Nat → Option Filter
  | [] => some f
  | i :: place => f.children[i]?.bind (·.subtree? place)

/-- A comparison or a full-text match. -/
def IsLeaf : Filter → Prop
  | .node .. => False
  | _ => True

/-! ### Nodes -/

/-- All nodes of a tree, at any depth, have as many children as they may. -/
def HasFitNodes (f : Filter) : Prop :=
  ∀ place connective children, f.subtree? place = some (.node connective children) →
    connective.Fits children.length

theorem HasFitNodes.of_isFromKey {leaf : Filter} (hleaf : leaf.IsFromKey) : leaf.HasFitNodes := by
  intro place connective children hplace
  cases leaf with
  | node => exact hleaf.elim
  | comparison | fullText => cases place <;> cases hplace

theorem HasFitNodes.node {connective : Connective} {fs : List Filter}
    (hfits : connective.Fits fs.length) (hfs : ∀ f ∈ fs, f.HasFitNodes) :
    (Filter.node connective fs).HasFitNodes := by
  intro place connective' children hplace
  cases place with
  | nil =>
      cases hplace
      exact hfits
  | cons i place =>
      obtain ⟨child, hchild, hplace⟩ := Option.bind_eq_some_iff.1 hplace
      exact hfs child (List.mem_of_getElem? hchild) place connective' children hplace

/-- A single filter is left as it is, so that combining filters makes no node for it. -/
theorem HasFitNodes.combine {connective : Connective} (hword : connective ≠ .not)
    {fs : List Filter} (hfs : ∀ f ∈ fs, f.HasFitNodes) :
    ∀ f ∈ Filter.combine connective fs, f.HasFitNodes := by
  intro f hf
  match fs with
  | [] => cases hf
  | [child] =>
      cases hf
      exact hfs _ (List.mem_singleton.2 rfl)
  | first :: second :: rest =>
      cases hf
      refine .node ?_ hfs
      cases connective with
      | not => exact absurd rfl hword
      | and | or => exact Nat.le_add_left 2 rest.length

theorem isKept_hasFitNodes : IsKept HasFitNodes where
  leaf _ := .of_isFromKey
  join connective fs hfs f hf := by
    cases connective with
    | and | or => exact HasFitNodes.combine (by decide) hfs f hf
    | not =>
        obtain ⟨child, hchild, rfl⟩ := Option.map_eq_some_iff.1 hf
        refine .node rfl (List.forall_mem_singleton.2 ?_)
        exact HasFitNodes.combine (by decide) hfs child hchild

/-! ### Leaves -/

mutual
/-- The places of the leaves, from left to right. -/
def leafPlaces : Filter → List (List Nat)
  | .node _ children => leafPlacesFrom 0 children
  | _ => [[]]

/-- The places of the leaves of children, the first of which has the given number. -/
def leafPlacesFrom (number : Nat) : List Filter → List (List Nat)
  | [] => []
  | child :: children =>
    (leafPlaces child).map (number :: ·) ++ leafPlacesFrom (number + 1) children
end

/-- A leaf of children is one of the child with the number that its place begins with. -/
theorem mem_leafPlacesFrom {fs : List Filter} {number : Nat} {place : List Nat} :
    place ∈ leafPlacesFrom number fs ↔
      ∃ i f rest, fs[i]? = some f ∧ rest ∈ f.leafPlaces ∧ place = (number + i) :: rest := by
  induction fs generalizing number with
  | nil => simp [leafPlacesFrom]
  | cons f fs ih =>
      rw [leafPlacesFrom, List.mem_append, ih]
      constructor
      · rintro (hfirst | ⟨i, g, rest, hg, hrest, rfl⟩)
        · obtain ⟨rest, hrest, rfl⟩ := List.mem_map.1 hfirst
          exact ⟨0, f, rest, rfl, hrest, rfl⟩
        · exact ⟨i + 1, g, rest, hg, hrest, by rw [Nat.add_right_comm, Nat.add_assoc]⟩
      · rintro ⟨i, g, rest, hg, hrest, rfl⟩
        cases i with
        | zero =>
            cases hg
            exact .inl (List.mem_map_of_mem hrest)
        | succ i => exact .inr ⟨i, g, rest, hg, hrest, by rw [Nat.add_right_comm, Nat.add_assoc]⟩

theorem leafPlaces_node (connective : Connective) (fs : List Filter) :
    leafPlaces (.node connective fs) = leafPlacesFrom 0 fs := by rw [leafPlaces]

/-- The places are those of the leaves, and of nothing else. -/
theorem mem_leafPlaces {f : Filter} {place : List Nat} :
    place ∈ f.leafPlaces ↔ ∃ leaf, f.subtree? place = some leaf ∧ leaf.IsLeaf := by
  induction f generalizing place with
  | comparison | fullText => cases place <;> simp [leafPlaces, subtree?, children, IsLeaf]
  | node connective fs ih =>
      rw [leafPlaces_node, mem_leafPlacesFrom]
      cases place with
      | nil => simp [subtree?, IsLeaf]
      | cons i place =>
          constructor
          · rintro ⟨j, f, rest, hf, hrest, heq⟩
            obtain ⟨rfl, rfl⟩ : i = j ∧ place = rest := by simpa using heq
            obtain ⟨leaf, hleaf, his⟩ := (ih f (List.mem_of_getElem? hf)).1 hrest
            exact ⟨leaf, Option.bind_eq_some_iff.2 ⟨f, hf, hleaf⟩, his⟩
          · rintro ⟨leaf, hleaf, his⟩
            obtain ⟨f, hf, hleaf⟩ := Option.bind_eq_some_iff.1 hleaf
            have hrest := (ih f (List.mem_of_getElem? hf)).2 ⟨leaf, hleaf, his⟩
            exact ⟨i, f, place, hf, hrest, by rw [Nat.zero_add]⟩

mutual
/-- Each place comes before those after it. -/
theorem pairwise_leafPlaces : ∀ f : Filter, f.leafPlaces.Pairwise (· < ·)
  | .comparison _ | .fullText _ => List.pairwise_singleton _ _
  | .node connective fs => by
      rw [leafPlaces_node]
      exact pairwise_leafPlacesFrom 0 fs

theorem pairwise_leafPlacesFrom (number : Nat) :
    ∀ fs : List Filter, (leafPlacesFrom number fs).Pairwise (· < ·)
  | [] => .nil
  | f :: fs => by
      rw [leafPlacesFrom]
      refine List.pairwise_append.2 ⟨?_, pairwise_leafPlacesFrom (number + 1) fs, ?_⟩
      · exact (pairwise_leafPlaces f).map _ fun _ _ => List.Lex.cons
      · intro first hfirst later hlater
        obtain ⟨rest, _, rfl⟩ := List.mem_map.1 hfirst
        obtain ⟨i, g, rest', _, _, rfl⟩ := mem_leafPlacesFrom.1 hlater
        exact List.Lex.rel (by omega)
end

mutual
/-- The leaves are found at their places, in this order. -/
theorem map_subtree?_leafPlaces : ∀ f : Filter,
    f.leafPlaces.map f.subtree? = f.leaves.map some
  | .comparison _ | .fullText _ => rfl
  | .node connective fs => by
      rw [leafPlaces_node, leaves]
      exact map_subtree?_leafPlacesFrom fs fun i => by rw [Nat.zero_add]; rfl

theorem map_subtree?_leafPlacesFrom {number : Nat} {f : Filter} : ∀ fs : List Filter,
    (∀ i, f.children[number + i]? = fs[i]?) →
      (leafPlacesFrom number fs).map f.subtree? = (leavesOf fs).map some
  | [], _ => rfl
  | child :: fs, hchildren => by
      have hchild : f.children[number]? = some child := hchildren 0
      have hlater : ∀ i, f.children[number + 1 + i]? = fs[i]? := fun i => by
        rw [Nat.add_assoc, Nat.add_comm 1 i]
        exact hchildren (i + 1)
      have hfirst : ((leafPlaces child).map (number :: ·)).map f.subtree? =
          (leafPlaces child).map child.subtree? := by
        rw [List.map_map]
        exact List.map_congr_left fun place _ => by simp [subtree?, hchild]
      rw [leafPlacesFrom, leavesOf, List.map_append, List.map_append, hfirst,
        map_subtree?_leafPlaces child, map_subtree?_leafPlacesFrom fs hlater]
end

end Filter

namespace FilterBuilder

variable {resource : Resource} {options : Options} {p : Filter → Prop}

theorem Keeps.addParam (hp : Filter.IsKept p) {b b' : FilterBuilder} {key : String}
    {values : List String} (hb : b.Keeps p)
    (hadd : b.addParam resource options key values = .ok b') : b'.Keeps p := by
  obtain ⟨leaf, hleaf, hb'⟩ := Result.bind_eq_ok.1 hadd
  cases hb'
  refine ⟨List.forall_mem_append.2 ⟨hb.simple, List.forall_mem_singleton.2 ?_⟩, hb.document⟩
  exact hp.leaf leaf (isFromKey_of_readParam hleaf)

/-- What is kept holds of the tree after any accepted calls. -/
theorem of_build (hp : Filter.IsKept p) {calls : List Call} {b : FilterBuilder}
    (hrun : run resource options calls = .ok b) : ∀ f ∈ b.build, p f := by
  have hkeeps : b.Keeps p := Result.foldlM_invariant (Keeps p)
    (fun b given b' hb hcall => match given with
      | .param .. => hb.addParam hp hcall
      | .document _ => hb.addDocument hp hcall) keeps_empty hrun
  exact hkeeps.build hp

/-- In the tree that accepted calls build, a conjunction or a disjunction at any depth has at least
two children and a negation exactly one. The places of its leaves are all places where one stands,
each once and from left to right, and a visit of the tree visits what stands at these places, as
long as the visits of the leaves let it go on. -/
theorem build_nodes_and_visits {calls : List Call} {b : FilterBuilder}
    (hrun : run resource options calls = .ok b) : ∀ f ∈ b.build,
    (∀ place connective children, f.subtree? place = some (.node connective children) →
      connective.Fits children.length) ∧
    f.leafPlaces.Pairwise (· < ·) ∧
    (∀ place, place ∈ f.leafPlaces ↔ ∃ leaf, f.subtree? place = some leaf ∧ leaf.IsLeaf) ∧
    f.leafPlaces.map f.subtree? = f.leaves.map some ∧
    ∀ {m : Type → Type} [Monad m] [LawfulMonad m] (visit : Filter → m Unit),
      f.forEachLeaf visit = f.leaves.forM visit := by
  intro f hf
  refine ⟨of_build Filter.isKept_hasFitNodes hrun f hf, f.pairwise_leafPlaces, ?_, ?_, ?_⟩
  · exact fun place => Filter.mem_leafPlaces
  · exact f.map_subtree?_leafPlaces
  · exact fun visit => f.forEachLeaf_eq visit

end FilterBuilder

/-- A disjunction, a negation below it, and the conjunction of them with a parameter. -/
theorem Shoes.build_nodes_and_visits_calls :
    ∃ b f, FilterBuilder.run resource {} calls = .ok b ∧ f ∈ b.build ∧
      f.subtree? [0] = some (.node .or [size, .node .not [boot]]) ∧
      f.subtree? [0, 1] = some (.node .not [boot]) ∧
      (∀ place connective children, f.subtree? place = some (.node connective children) →
        connective.Fits children.length) ∧
      f.leafPlaces = [[0, 0], [0, 1, 0], [1]] ∧ f.leafPlaces.Pairwise (· < ·) ∧
      ∀ visit : Filter → Result Unit, f.forEachLeaf visit = [size, boot, large].forM visit := by
  have hrun : FilterBuilder.run resource {} calls =
      .ok ⟨[large], some (.node .or [size, .node .not [boot]])⟩ := by cbv
  obtain ⟨hnodes, hordered, -, -, hvisit⟩ := FilterBuilder.build_nodes_and_visits hrun
    (.node .and [.node .or [size, .node .not [boot]], large]) rfl
  exact ⟨_, _, hrun, rfl, rfl, rfl, hnodes, rfl, hordered, hvisit⟩

end Listing

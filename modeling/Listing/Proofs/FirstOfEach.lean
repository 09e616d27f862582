/-
# The first elements of each class

The elements of a list fall into classes by a key. Numbered within their classes, those with a small
number are the first of each class. What the first ones are depends on the order of the list alone,
and a list is known from an order that leaves no two of its elements alike.

A list may also be arranged by a coarser order, class by class. The first elements of a class are
then the same ones, if each of them comes strictly before the others of the class. If one of them is
like one of the others, either of the two may be among the first ones.
-/
import Mathlib.Data.List.Basic
import Mathlib.Data.List.Perm.Basic

namespace Listing

section Classes

variable {α κ : Type} [DecidableEq κ] {key : α → κ} {n : Nat} {xs ys : List α}

/-- The elements of a list with their numbers among those of the same key, which `before` has the
keys of what came earlier. -/
def numbered (key : α → κ) : List κ → List α → List (α × Nat)
  | _, [] => []
  | before, x :: xs => (x, before.count (key x) + 1) :: numbered key (key x :: before) xs

/-- The first elements of each class. -/
def firstOfEach (key : α → κ) (n : Nat) (xs : List α) : List α :=
  ((numbered key [] xs).filter (·.2 ≤ n)).map (·.1)

theorem map_fst_numbered (before : List κ) (xs : List α) :
    (numbered key before xs).map (·.1) = xs := by
  induction xs generalizing before with
  | nil => rfl
  | cons x xs ih => rw [numbered, List.map_cons, ih]

theorem firstOfEach_sublist (key : α → κ) (n : Nat) (xs : List α) :
    (firstOfEach key n xs).Sublist xs := by
  have hsublist := (List.filter_sublist (p := fun x : α × Nat => decide (x.2 ≤ n))
    (l := numbered key [] xs)).map (·.1)
  rwa [map_fst_numbered] at hsublist

theorem le_of_mem_numbered {before : List κ} {x : α × Nat} (hx : x ∈ numbered key before xs) :
    x.2 ≤ before.length + xs.length := by
  induction xs generalizing before with
  | nil => cases hx
  | cons y xs ih =>
      rw [List.length_cons]
      rcases List.mem_cons.1 hx with rfl | hx
      · have hcount : before.count (key y) ≤ before.length := List.count_le_length
        dsimp only
        omega
      · have hrest := ih hx
        rw [List.length_cons] at hrest
        omega

/-- A bound on numbers that is not below the length of the list has no effect. -/
theorem firstOfEach_min (n : Nat) {bound : Nat} (hlength : xs.length ≤ bound) :
    firstOfEach key (min n bound) xs = firstOfEach key n xs := by
  refine congrArg (List.map _) (List.filter_congr fun x hx => ?_)
  have hle := le_of_mem_numbered hx
  rw [List.length_nil, Nat.zero_add] at hle
  rw [decide_eq_decide]
  omega

/-- The elements of a class with a small number are its first ones, less those that came earlier. -/
theorem filter_numbered (n : Nat) (k : κ) (before : List κ) (xs : List α) :
    (((numbered key before xs).filter (·.2 ≤ n)).map (·.1)).filter (key · = k) =
      (xs.filter (key · = k)).take (n - before.count k) := by
  induction xs generalizing before with
  | nil => simp [numbered]
  | cons x xs ih =>
      have hrest := ih (key x :: before)
      rw [numbered]
      by_cases hkey : key x = k
      · rw [hkey, List.count_cons_self] at hrest
        rw [List.filter_cons_of_pos (p := fun x => decide (key x = k)) (by simpa using hkey), hkey]
        by_cases hfirst : before.count k + 1 ≤ n
        · obtain ⟨m, hm⟩ := Nat.exists_eq_add_of_le hfirst
          rw [List.filter_cons_of_pos (by simpa using hfirst), List.map_cons,
            List.filter_cons_of_pos (by simpa using hkey), hrest,
            show n - before.count k = n - (before.count k + 1) + 1 by omega, List.take_succ_cons]
        · rw [List.filter_cons_of_neg (by simpa using hfirst), hrest,
            show n - before.count k = 0 by omega, show n - (before.count k + 1) = 0 by omega,
            List.take_zero, List.take_zero]
      · rw [List.count_cons_of_ne hkey] at hrest
        rw [List.filter_cons_of_neg (p := fun x => decide (key x = k)) (by simpa using hkey),
          ← hrest]
        by_cases hfirst : before.count (key x) + 1 ≤ n
        · rw [List.filter_cons_of_pos (by simpa using hfirst), List.map_cons,
            List.filter_cons_of_neg (by simpa using hkey)]
        · rw [List.filter_cons_of_neg (by simpa using hfirst)]

/-- The first elements of each class are, in a class, its first ones. -/
theorem filter_firstOfEach (n : Nat) (k : κ) (xs : List α) :
    (firstOfEach key n xs).filter (key · = k) = (xs.filter (key · = k)).take n :=
  filter_numbered n k [] xs

/-- The first elements of the only class are those of the list. -/
theorem firstOfEach_of_forall {k : κ} (hkey : ∀ x ∈ xs, key x = k) :
    firstOfEach key n xs = xs.take n := by
  have hall : ∀ ys : List α, ys ⊆ xs → ys.filter (key · = k) = ys := fun ys hys =>
    List.filter_eq_self.2 fun x hx => decide_eq_true (hkey x (hys hx))
  rw [← hall (firstOfEach key n xs) (firstOfEach_sublist key n xs).subset, filter_firstOfEach,
    hall xs (List.Subset.refl xs)]

/-- Lists with the same classes have the same elements. -/
theorem perm_of_classes (key : α → κ)
    (hclasses : ∀ k, (xs.filter (key · = k)).Perm (ys.filter (key · = k))) : xs.Perm ys := by
  classical
  refine List.perm_iff_count.2 fun x => ?_
  have hcount := (hclasses (key x)).count_eq x
  rwa [List.count_filter (by simp), List.count_filter (by simp)] at hcount

/-- Of lists for different keys, only that of one key may be left. -/
theorem flatMap_eq_of_nodup {β : Type} {keys : List κ} (hnodup : keys.Nodup) {f : κ → List β}
    {k : κ} (hother : ∀ k' ≠ k, f k' = []) : keys.flatMap f = if k ∈ keys then f k else [] := by
  induction keys with
  | nil => rfl
  | cons first keys ih =>
      obtain ⟨hfresh, hnodup⟩ := List.nodup_cons.1 hnodup
      rw [List.flatMap_cons, ih hnodup]
      by_cases hfirst : k = first
      · rw [← hfirst, if_pos List.mem_cons_self, if_neg (hfirst ▸ hfresh), List.append_nil]
      · rw [hother first (Ne.symm hfirst), List.nil_append]
        simp only [List.mem_cons, hfirst, false_or]

/-- Taking the first elements class by class gives the first elements of each class. -/
theorem flatMap_take_perm {keys : List κ} (hnodup : keys.Nodup) (hkeys : ∀ x ∈ xs, key x ∈ keys)
    (n : Nat) : (keys.flatMap fun k => (xs.filter (key · = k)).take n).Perm
      (firstOfEach key n xs) := by
  refine perm_of_classes key fun k => .of_eq ?_
  have hother : ∀ k' ≠ k, ((xs.filter (key · = k')).take n).filter (key · = k) = [] := by
    intro k' hne
    refine List.filter_eq_nil_iff.2 fun x hx heq => hne ?_
    have hkey := of_decide_eq_true (List.mem_filter.1 (List.mem_of_mem_take hx)).2
    exact hkey.symm.trans (of_decide_eq_true heq)
  rw [filter_firstOfEach, List.filter_flatMap, flatMap_eq_of_nodup hnodup hother]
  split
  · refine List.filter_eq_self.2 fun x hx => ?_
    exact (List.mem_filter.1 (List.mem_of_mem_take hx)).2
  · rename_i hmem
    have hempty : xs.filter (key · = k) = [] :=
      List.filter_eq_nil_iff.2 fun x hx heq => hmem (of_decide_eq_true heq ▸ hkeys x hx)
    rw [hempty, List.take_nil]

/-- All elements, class by class, are the elements of the list. -/
theorem flatMap_classes_perm {keys : List κ} (hnodup : keys.Nodup)
    (hkeys : ∀ x ∈ xs, key x ∈ keys) :
    (keys.flatMap fun k => xs.filter (key · = k)).Perm xs := by
  have hall : firstOfEach key xs.length xs = xs := by
    rw [firstOfEach, List.filter_eq_self.2, map_fst_numbered]
    intro x hx
    simpa using le_of_mem_numbered hx
  have hperm := flatMap_take_perm hnodup hkeys xs.length
  rw [hall] at hperm
  refine .trans (.of_eq (List.flatMap_congr fun k _ => ?_)) hperm
  exact (List.take_of_length_le (List.length_filter_le _ xs)).symm

/-- A class may be arranged apart from the others. -/
theorem arrange_class (k : κ) (hperm : ys.Perm (xs.filter (key · = k))) :
    (ys ++ xs.filter (! key · = k)).Perm xs ∧ ∀ k',
      (ys ++ xs.filter (! key · = k)).filter (key · = k') =
        if k' = k then ys else xs.filter (key · = k') := by
  refine ⟨(hperm.append_right _).trans (List.filter_append_perm _ xs), fun k' => ?_⟩
  have hclass : ∀ y ∈ ys, key y = k := fun y hy =>
    of_decide_eq_true (List.mem_filter.1 (hperm.mem_iff.1 hy)).2
  rw [List.filter_append, List.filter_filter]
  split
  · rename_i hsame
    rw [hsame, List.filter_eq_self.2 fun y hy => decide_eq_true (hclass y hy),
      List.filter_eq_nil_iff.2 fun x _ => by simp, List.append_nil]
  · rename_i hother
    rw [List.filter_eq_nil_iff.2 fun y hy heq => hother
      ((of_decide_eq_true heq).symm.trans (hclass y hy)), List.nil_append]
    refine List.filter_congr fun x _ => ?_
    by_cases hkey : key x = k' <;> simp [hkey, hother]

end Classes

section Order

variable {α κ : Type} [DecidableEq κ] {cmp window : α → α → Ordering} {key : α → κ} {n : Nat}
  {xs ys front back : List α}

/-- No element comes after one that it should come before. -/
def Sorted (cmp : α → α → Ordering) (xs : List α) : Prop := xs.Pairwise fun x y => (cmp x y).isLE

/-- An order that leaves no two elements of a list alike determines the list. -/
theorem Sorted.eq_of_perm [Std.OrientedCmp cmp] (hxs : Sorted cmp xs) (hys : Sorted cmp ys)
    (hperm : xs.Perm ys) (hdiffer : ∀ x ∈ xs, ∀ y ∈ xs, cmp x y = .eq → x = y) : xs = ys := by
  refine List.Perm.eq_of_pairwise (fun x y hx hy hle hle' => ?_) hxs hys hperm
  refine hdiffer x hx y (hperm.mem_iff.2 hy) ?_
  exact Std.OrientedCmp.isLE_antisymm hle hle'

/-- A list is cut by a property that no element has after one without it. -/
theorem filter_append_filter_not {p : α → Bool}
    (hcut : xs.Pairwise fun x y => p y = true → p x = true) :
    xs.filter p ++ xs.filter (! p ·) = xs := by
  induction xs with
  | nil => rfl
  | cons x xs ih =>
      obtain ⟨hx, hxs⟩ := List.pairwise_cons.1 hcut
      have hrest := ih hxs
      cases hp : p x with
      | true =>
          rw [List.filter_cons_of_pos hp, List.filter_cons_of_neg (by simp [hp]), List.cons_append,
            hrest]
      | false =>
          have hnone : xs.filter p = [] := List.filter_eq_nil_iff.2 fun y hy hpy => by
            rw [hx y hy hpy] at hp
            cases hp
          rw [hnone, List.nil_append] at hrest
          rw [List.filter_cons_of_neg (by simp [hp]), List.filter_cons_of_pos (by simp [hp]), hnone,
            hrest, List.nil_append]

/-- If the elements of every class stand together, the list is in order class by class. -/
theorem flatMap_classes_eq
    (hgathered : ∀ x y z, [x, y, z].Sublist xs → key x = key z → key y = key x) :
    ((xs.map key).eraseDups.flatMap fun k => xs.filter (key · = k)) = xs := by
  induction hlength : xs.length using Nat.strongRecOn generalizing xs with
  | ind n ih =>
  cases xs with
  | nil => rfl
  | cons x xs =>
      let rest := xs.filter fun y => ! decide (key y = key x)
      have hrest : ((rest.map key).eraseDups.flatMap fun k => rest.filter (key · = k)) = rest := by
        refine ih rest.length ?_ (fun y z w hsublist => hgathered y z w ?_) rfl
        · rw [← hlength]
          exact Nat.lt_succ_of_le (List.length_filter_le _ xs)
        · exact (hsublist.trans List.filter_sublist).trans (List.sublist_cons_self x xs)
      -- The class of `x` comes before everything else, as nothing else stands between its elements.
      have hcut : (x :: xs).Pairwise fun y z =>
          decide (key z = key x) = true → decide (key y = key x) = true := by
        refine List.pairwise_cons.2 ⟨fun _ _ _ => by simp, ?_⟩
        refine List.pairwise_iff_forall_sublist.2 fun {y z} hsublist hz => ?_
        exact decide_eq_true (hgathered x y z (hsublist.cons_cons x) (of_decide_eq_true hz).symm)
      have hkeys : ((xs.map key).filter fun k => !k == key x) = rest.map key := by
        rw [List.filter_map]
        rfl
      have hothers : (rest.map key).eraseDups.flatMap (fun k => (x :: xs).filter (key · = k)) =
          (rest.map key).eraseDups.flatMap fun k => rest.filter (key · = k) := by
        refine List.flatMap_congr fun k hk => ?_
        obtain ⟨y, hy, rfl⟩ := List.mem_map.1 (List.mem_eraseDups.1 hk)
        have hother : key y ≠ key x := by simpa using (List.mem_filter.1 hy).2
        rw [List.filter_cons_of_neg (by simpa using hother.symm), List.filter_filter]
        refine List.filter_congr fun z _ => ?_
        by_cases hz : key z = key y <;> simp [hz, hother]
      rw [List.map_cons, List.eraseDups_cons, List.flatMap_cons, hkeys, hothers, hrest]
      exact (congrArg _ (List.filter_cons_of_neg (by simp)).symm).trans
        (filter_append_filter_not hcut)

/-- What comes strictly before everything else comes first, in whatever way a list is sorted. -/
theorem Sorted.take_perm [Std.TransCmp cmp] (hsorted : Sorted cmp xs)
    (hperm : xs.Perm (front ++ back)) (hbefore : ∀ x ∈ front, ∀ y ∈ back, cmp x y = .lt) :
    (xs.take front.length).Perm front := by
  let p (x : α) : Bool := back.all fun y => cmp x y == .lt
  have hfront : (front ++ back).filter p = front := by
    rw [List.filter_append, List.filter_eq_self.2 fun x hx => ?_, List.filter_eq_nil_iff.2,
      List.append_nil]
    · intro y hy hall
      have hself := List.all_eq_true.1 hall y hy
      simp [Std.ReflCmp.compare_self] at hself
    · exact List.all_eq_true.2 fun y hy => by simp [hbefore x hx y hy]
  have hcut : xs.filter p ++ xs.filter (! p ·) = xs := by
    refine filter_append_filter_not (hsorted.imp fun {x y} hle hy => ?_)
    refine List.all_eq_true.2 fun z hz => ?_
    have hlt : cmp y z = .lt := by simpa using List.all_eq_true.1 hy z hz
    simpa using Std.TransCmp.lt_of_isLE_of_lt hle hlt
  have hfirst : (xs.filter p).Perm front := by
    rw [← hfront]
    exact hperm.filter p
  rw [← hcut, List.take_left' hfirst.length_eq]
  exact hfirst

/-- Elements that are numbered in another order, in which the first ones of a class come strictly
before the others, have the same first ones of each class. -/
theorem Sorted.eq_firstOfEach [Std.TransCmp cmp] [Std.TransCmp window]
    {shown arranged kept : List α}
    (hshown : Sorted cmp shown) (hperm : arranged.Perm shown)
    (harranged : ∀ k, Sorted window (arranged.filter (key · = k)))
    (hdecided : ∀ k, ∀ x ∈ (shown.filter (key · = k)).take n,
      ∀ y ∈ (shown.filter (key · = k)).drop n, window x y = .lt)
    (hkept : kept.Perm (firstOfEach key n arranged)) (hsorted : Sorted cmp kept)
    (hdiffer : ∀ x ∈ shown, ∀ y ∈ shown, cmp x y = .eq → x = y) :
    kept = firstOfEach key n shown := by
  have hsublist := firstOfEach_sublist key n shown
  have hfirst : (firstOfEach key n arranged).Perm (firstOfEach key n shown) := by
    refine perm_of_classes key fun k => ?_
    rw [filter_firstOfEach, filter_firstOfEach]
    have hclass : (arranged.filter (key · = k)).Perm (shown.filter (key · = k)) := hperm.filter _
    have htake := (harranged k).take_perm
      (by rwa [List.take_append_drop]) (hdecided k)
    rwa [List.length_take, ← hclass.length_eq, ← List.take_eq_take_min] at htake
  have hboth : firstOfEach key n shown = kept :=
    Sorted.eq_of_perm (hshown.sublist hsublist) hsorted (hkept.trans hfirst).symm
      fun x hx y hy => hdiffer x (hsublist.subset hx) y (hsublist.subset hy)
  exact hboth.symm

/-- Every list can be put in order. -/
theorem exists_sorted (cmp : α → α → Ordering) [Std.TransCmp cmp] (xs : List α) :
    ∃ ys, ys.Perm xs ∧ Sorted cmp ys := by
  have htrans (x y z : α) (hxy : (cmp x y).isLE) (hyz : (cmp y z).isLE) : (cmp x z).isLE :=
    Std.TransCmp.isLE_trans hxy hyz
  have htotal (x y : α) : (cmp x y).isLE || (cmp y x).isLE := by
    have hswap : cmp y x = (cmp x y).swap := Std.OrientedCmp.eq_swap
    rw [hswap]
    cases cmp x y <;> rfl
  exact ⟨_, List.mergeSort_perm xs _, List.pairwise_mergeSort htrans htotal xs⟩

/-- An element that is like an earlier one may come before it. -/
theorem Sorted.exists_mem_take [Std.TransCmp window] (hsorted : Sorted window xs) {x y : α}
    (hx : x ∈ xs.take n) (hy : y ∈ xs.drop n) (halike : window x y = .eq) :
    ∃ ys, ys.Perm xs ∧ Sorted window ys ∧ y ∈ ys.take n := by
  obtain ⟨before, after, htake⟩ := List.append_of_mem hx
  obtain ⟨more, rest, hdrop⟩ := List.append_of_mem hy
  have hxs : xs = before ++ x :: (after ++ more ++ y :: rest) := by
    rw [← List.take_append_drop n xs, htake, hdrop]
    simp
  have hlength : before.length < n := by
    have hle := List.length_take_le n xs
    rw [htake, List.length_append, List.length_cons] at hle
    omega
  refine ⟨before ++ y :: x :: (after ++ more ++ rest), ?_, ?_, ?_⟩
  · rw [hxs]
    exact (((List.perm_middle.cons x).trans (.swap y x _)).symm).append_left before
  · rw [Sorted, hxs, List.pairwise_append, List.pairwise_cons] at hsorted
    obtain ⟨hbefore, ⟨hfirst, hlater⟩, hacross⟩ := hsorted
    have hkept : (after ++ more ++ rest).Sublist (after ++ more ++ y :: rest) :=
      (List.sublist_cons_self y rest).append_left _
    have hyx : (window y x).isLE := by
      rw [Std.OrientedCmp.eq_symm halike]
      rfl
    refine List.pairwise_append.2 ⟨hbefore, List.pairwise_cons.2 ⟨List.forall_mem_cons.2 ⟨hyx,
      fun z hz => Std.TransCmp.isLE_trans hyx (hfirst z (hkept.subset hz))⟩,
      List.pairwise_cons.2 ⟨fun z hz => hfirst z (hkept.subset hz), hlater.sublist hkept⟩⟩,
      fun w hw => List.forall_mem_cons.2 ⟨hacross w hw y (by simp), List.forall_mem_cons.2
        ⟨hacross w hw x List.mem_cons_self,
          fun z hz => hacross w hw z (List.mem_cons_of_mem x (hkept.subset hz))⟩⟩⟩
  · obtain ⟨m, rfl⟩ := Nat.exists_eq_add_of_lt hlength
    rw [Nat.add_assoc, List.take_length_add_append, List.take_succ_cons]
    exact List.mem_append_right before List.mem_cons_self

/-- If the order in which elements are numbered leaves one of the first ones of a class like one of
the others, either of them may be kept. -/
theorem exists_mem_firstOfEach (cmp : α → α → Ordering) [Std.TransCmp cmp] [Std.TransCmp window]
    {shown : List α}
    (hclasses : ∀ k, Sorted window (shown.filter (key · = k))) {k : κ} {x y : α}
    (hx : x ∈ (shown.filter (key · = k)).take n) (hy : y ∈ (shown.filter (key · = k)).drop n)
    (halike : window x y = .eq) :
    ∃ arranged kept : List α, arranged.Perm shown ∧
      (∀ k, Sorted window (arranged.filter (key · = k))) ∧
      kept.Perm (firstOfEach key n arranged) ∧ Sorted cmp kept ∧ y ∈ kept := by
  obtain ⟨ys, hperm, hsorted, hmem⟩ := (hclasses k).exists_mem_take hx hy halike
  obtain ⟨harranged, hfilter⟩ := arrange_class k hperm
  obtain ⟨kept, hkept, hordered⟩ :=
    exists_sorted cmp (firstOfEach key n (ys ++ shown.filter (! key · = k)))
  refine ⟨_, kept, harranged, fun k' => ?_, hkept, hordered, hkept.mem_iff.2 ?_⟩
  · rw [hfilter]
    split
    · exact hsorted
    · exact hclasses k'
  · have hclass := @filter_firstOfEach _ _ _ key n k (ys ++ shown.filter (! key · = k))
    rw [hfilter, if_pos rfl] at hclass
    exact List.mem_of_mem_filter (hclass ▸ hmem)

end Order
end Listing

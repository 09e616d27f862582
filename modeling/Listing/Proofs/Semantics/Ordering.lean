/-
# Comparisons by several keys

An order is a list of keys, each with a direction of its own. The first key that tells two records
apart decides between them. How the values under a key compare is left to a `Collation`: where a
store puts nulls, which letters it tells apart, and which element of a list it looks at may depend
on the direction.

A further key without effect may be left out. A key has no effect after itself, and none after the
other direction of itself where values that are alike in one direction are alike in both.
-/
import Listing.Proofs.Semantics.Datum
import Listing.Request.Order
import Mathlib.Algebra.Order.Ring.Unbundled.Rat
import Mathlib.Data.List.Induction
import Mathlib.Order.Defs.LinearOrder

namespace Listing

/-- How a store compares values in each direction. -/
structure Collation where
  compare : Direction → Datum → Datum → Ordering

namespace Collation

/-- Each direction puts values in order, and which values it leaves alike does not depend on it. -/
structure IsLawful (c : Collation) : Prop where
  trans : ∀ direction, Std.TransCmp (c.compare direction)
  alike : ∀ {d d' x y}, c.compare d x y = .eq → c.compare d' x y = .eq

/-- Some values are in another order when the direction is the other. -/
def HasDirections (c : Collation) : Prop :=
  ∃ x y, c.compare .ascending x y ≠ c.compare .descending x y

section Comparison

variable (c : Collation) {κ ι : Type}

/-- The comparison of two records by keys. -/
def compareBy : List (κ × Direction) → (κ → Datum) → (κ → Datum) → Ordering
  | [], _, _ => .eq
  | (key, direction) :: keys, x, y =>
    (c.compare direction (x key) (y key)).then (compareBy keys x y)

theorem compareBy_singleton (key : κ) (d : Direction) (x y : κ → Datum) :
    c.compareBy [(key, d)] x y = c.compare d (x key) (y key) :=
  Ordering.then_eq

theorem compareBy_append (keys more : List (κ × Direction)) (x y : κ → Datum) :
    c.compareBy (keys ++ more) x y = (c.compareBy keys x y).then (c.compareBy more x y) := by
  induction keys with
  | nil => rfl
  | cons key keys ih => rw [List.cons_append, compareBy, compareBy, ih, Ordering.then_assoc]

/-- Records may be compared by other keys under which they have the same values. -/
theorem compareBy_of_values {keys : List (κ × Direction)} {keys' : List (ι × Direction)}
    {x y : κ → Datum} {x' y' : ι → Datum}
    (hx : keys.map (fun key => (x key.1, key.2)) = keys'.map fun key => (x' key.1, key.2))
    (hy : keys.map (fun key => (y key.1, key.2)) = keys'.map fun key => (y' key.1, key.2)) :
    c.compareBy keys x y = c.compareBy keys' x' y' := by
  induction keys generalizing keys' with
  | nil =>
      rw [List.map_nil, eq_comm, List.map_eq_nil_iff] at hx
      rw [hx]
      rfl
  | cons key keys ih =>
      cases keys' with
      | nil => cases hx
      | cons key' keys' =>
          obtain ⟨hkey, hx⟩ := List.cons.inj hx
          obtain ⟨hkey', hy⟩ := List.cons.inj hy
          obtain ⟨hfirst, hdirection⟩ := Prod.mk.inj hkey
          rw [compareBy, compareBy, hfirst, hdirection, (Prod.mk.inj hkey').1, ih hx hy]

theorem compareBy_map (rename : κ → ι) (keys : List (κ × Direction)) (x y : ι → Datum) :
    c.compareBy (keys.map fun key => (rename key.1, key.2)) x y =
      c.compareBy keys (x ∘ rename) (y ∘ rename) := by
  apply c.compareBy_of_values <;>
  · rw [List.map_map]
    rfl

theorem compareBy_congr {keys : List (κ × Direction)} {x y x' y' : κ → Datum}
    (hx : ∀ key ∈ keys, x key.1 = x' key.1) (hy : ∀ key ∈ keys, y key.1 = y' key.1) :
    c.compareBy keys x y = c.compareBy keys x' y' :=
  c.compareBy_of_values (List.map_congr_left fun key hkey => by rw [hx key hkey])
    (List.map_congr_left fun key hkey => by rw [hy key hkey])

/-- Records are alike exactly if they are under every key. -/
theorem compareBy_eq_eq {keys : List (κ × Direction)} {x y : κ → Datum} :
    c.compareBy keys x y = .eq ↔ ∀ key ∈ keys, c.compare key.2 (x key.1) (y key.1) = .eq := by
  induction keys with
  | nil => simp [compareBy]
  | cons key keys ih => rw [compareBy, Ordering.then_eq_eq, ih, List.forall_mem_cons]

/-- Keys under which records are alike may be left out. -/
theorem compareBy_filter {keys : List (κ × Direction)} {x y : κ → Datum}
    {keep : κ × Direction → Bool}
    (halike : ∀ key ∈ keys, keep key = false → c.compare key.2 (x key.1) (y key.1) = .eq) :
    c.compareBy (keys.filter keep) x y = c.compareBy keys x y := by
  induction keys with
  | nil => rfl
  | cons key keys ih =>
      have hrest := ih fun key' hkey' => halike key' (List.mem_cons_of_mem key hkey')
      rw [compareBy]
      cases hkeep : keep key with
      | true => rw [List.filter_cons_of_pos hkeep, compareBy, hrest]
      | false =>
          rw [List.filter_cons_of_neg (by simp [hkeep]), hrest,
            halike key List.mem_cons_self hkeep, Ordering.eq_then]


end Comparison

section Repetitions

variable (c : Collation) {κ : Type} [DecidableEq κ]

/-- The keys without those that an earlier one names. -/
def firstKeys : List (κ × Direction) → List (κ × Direction)
  | [] => []
  | key :: keys => key :: (firstKeys keys).filter (·.1 ≠ key.1)

theorem firstKeys_subset (keys : List (κ × Direction)) : firstKeys keys ⊆ keys := by
  induction keys with
  | nil => exact List.Subset.refl _
  | cons key keys ih =>
      exact List.cons_subset_cons key (List.Subset.trans List.filter_sublist.subset ih)

/-- Keys that were named before have no effect, if all directions in which a key is named leave the
same values alike. -/
theorem compareBy_firstKeys {keys : List (κ × Direction)} {x y : κ → Datum}
    (halike : ∀ first ∈ keys, ∀ later ∈ keys, later.1 = first.1 →
      c.compare first.2 (x first.1) (y first.1) = .eq →
        c.compare later.2 (x later.1) (y later.1) = .eq) :
    c.compareBy (firstKeys keys) x y = c.compareBy keys x y := by
  induction keys with
  | nil => rfl
  | cons key keys ih =>
      have hrest := ih fun first hfirst later hlater =>
        halike first (List.mem_cons_of_mem key hfirst) later (List.mem_cons_of_mem key hlater)
      rw [firstKeys, compareBy, compareBy]
      cases hcompare : c.compare key.2 (x key.1) (y key.1) with
      | lt | gt => rfl
      | eq =>
          rw [Ordering.eq_then, Ordering.eq_then, ← hrest]
          refine c.compareBy_filter fun later hlater hnamed => ?_
          have hsame : later.1 = key.1 := by simpa using hnamed
          exact halike key List.mem_cons_self later
            (List.mem_cons_of_mem key (firstKeys_subset keys hlater)) hsame hcompare

theorem mem_map_firstKeys {keys : List (κ × Direction)} {key : κ} :
    key ∈ (firstKeys keys).map (·.1) ↔ key ∈ keys.map (·.1) := by
  induction keys with
  | nil => rfl
  | cons first keys ih =>
      rw [firstKeys, List.map_cons, List.map_cons, List.mem_cons, List.mem_cons, ← ih]
      by_cases hfirst : key = first.1
      · simp [hfirst]
      · simp [hfirst]

/-- A key is kept at the end, unless it was named before. -/
theorem firstKeys_append_singleton (keys : List (κ × Direction)) (key : κ × Direction) :
    firstKeys (keys ++ [key]) =
      if key.1 ∈ keys.map (·.1) then firstKeys keys else firstKeys keys ++ [key] := by
  induction keys with
  | nil => rfl
  | cons first keys ih =>
      rw [List.cons_append, firstKeys, firstKeys, ih, List.map_cons]
      by_cases hfirst : key.1 = first.1
      · simp only [hfirst, List.mem_cons_self, if_true]
        split
        · rfl
        · simp [hfirst]
      · simp only [List.mem_cons, hfirst, false_or]
        split
        · rfl
        · simp [hfirst]

theorem nodup_firstKeys (keys : List (κ × Direction)) : ((firstKeys keys).map (·.1)).Nodup := by
  induction keys with
  | nil => exact List.nodup_nil
  | cons key keys ih =>
      rw [firstKeys, List.map_cons, List.nodup_cons]
      refine ⟨by simp, ih.sublist (List.filter_sublist.map _)⟩

/-- A key is found with the direction in which it is named first. -/
theorem lookup_firstKeys (keys : List (κ × Direction)) (key : κ) :
    (firstKeys keys).lookup key = keys.lookup key := by
  induction keys using List.reverseRecOn with
  | nil => rfl
  | append_singleton keys last ih =>
      obtain ⟨other, d⟩ := last
      rw [firstKeys_append_singleton, List.lookup_append, ← ih]
      split
      · rename_i hnamed
        by_cases hlast : key = other
        · have hfound : ((firstKeys keys).lookup key).isSome = true := by
            rw [ih, hlast, List.lookup_isSome_iff]
            simpa using hnamed
          rw [Option.or_of_isSome hfound]
        · have hother : (key == other) = false := beq_false_of_ne hlast
          simp [List.lookup_cons, hother]
      · rw [List.lookup_append]

/-- Records that differ under one key only compare by it. -/
theorem compareBy_of_lookup (hlawful : c.IsLawful) {keys : List (κ × Direction)}
    (hnodup : (keys.map (·.1)).Nodup) {key : κ} {d : Direction} (hkey : keys.lookup key = some d)
    {x y : κ → Datum} (hothers : ∀ other, other ≠ key → x other = y other) :
    c.compareBy keys x y = c.compare d (x key) (y key) := by
  have hself (d : Direction) (v : Datum) : c.compare d v v = .eq :=
    have := hlawful.trans d
    Std.ReflCmp.compare_self
  induction keys with
  | nil => simp at hkey
  | cons first keys ih =>
      rw [List.map_cons, List.nodup_cons] at hnodup
      rw [List.lookup_cons] at hkey
      by_cases hfirst : key = first.1
      · rw [hfirst, beq_self_eq_true, Option.some.injEq] at hkey
        have hrest : c.compareBy keys x y = .eq := by
          refine c.compareBy_eq_eq.2 fun later hlater => ?_
          have hlater : later.1 ≠ key := fun heq =>
            hnodup.1 (hfirst ▸ heq ▸ List.mem_map_of_mem hlater)
          rw [hothers later.1 hlater, hself]
        rw [compareBy, hrest, Ordering.then_eq, hkey, hfirst]
      · rw [beq_false_of_ne hfirst] at hkey
        rw [compareBy, hothers first.1 (Ne.symm hfirst), hself, Ordering.eq_then,
          ih hnodup.2 hkey]

end Repetitions

/-- Lists that name the same keys once each and in the same order, with the same values, are the
same. -/
theorem eq_of_lookup {κ β : Type} [DecidableEq κ] {xs ys : List (κ × β)}
    (hkeys : xs.map (·.1) = ys.map (·.1)) (hnodup : (xs.map (·.1)).Nodup)
    (hlookup : ∀ key, xs.lookup key = ys.lookup key) : xs = ys := by
  induction xs generalizing ys with
  | nil =>
      rw [List.map_nil, eq_comm, List.map_eq_nil_iff] at hkeys
      rw [hkeys]
  | cons x xs ih =>
      cases ys with
      | nil => simp at hkeys
      | cons y ys =>
          rw [List.map_cons, List.map_cons, List.cons.injEq] at hkeys
          rw [List.map_cons, List.nodup_cons] at hnodup
          have hfirst := hlookup x.1
          rw [List.lookup_cons, List.lookup_cons, ← hkeys.1, beq_self_eq_true] at hfirst
          have hrest : xs = ys := by
            refine ih hkeys.2 hnodup.2 fun key => ?_
            by_cases hkey : key = x.1
            · have hfresh : ∀ zs : List (κ × β), x.1 ∉ zs.map (·.1) → zs.lookup key = none := by
                intro zs hzs
                rw [hkey, List.lookup_eq_none_iff]
                intro z hz
                simpa using fun heq : x.1 = z.1 => hzs (heq ▸ List.mem_map_of_mem hz)
              rw [hfresh xs hnodup.1, hfresh ys (hkeys.2 ▸ hnodup.1)]
            · have hother := hlookup key
              rwa [List.lookup_cons, List.lookup_cons, ← hkeys.1, beq_false_of_ne hkey] at hother
          rw [hrest, Prod.ext hkeys.1 (Option.some.inj hfirst)]

end Collation

namespace Datum

/-- The place of the type of a value among the types. -/
def rank : Datum → Nat
  | .null => 0
  | .bool _ => 1
  | .number _ => 2
  | .text _ => 3
  | .other _ => 4

/-- The value of a number or a truth value. -/
def size : Datum → Rat
  | .bool b => if b then 1 else 0
  | .number q => q
  | _ => 0

/-- The letters of a text and of a value of a further type. -/
def letters : Datum → String
  | .text s | .other s => s
  | _ => ""

/-- An order of all values: by type, then by size, then by letters. -/
def compare : Datum → Datum → Ordering :=
  compareLex (compareOn rank) (compareLex (compareOn size) (compareOn letters))

instance : Std.TransCmp compare :=
  inferInstanceAs (Std.TransCmp (compareLex (compareOn rank)
    (compareLex (compareOn size) (compareOn letters))))

end Datum

/-- Nulls come first, and one direction is the other reversed. -/
def Collation.standard : Collation where
  compare
    | .ascending, x, y => x.compare y
    | .descending, x, y => y.compare x

theorem Collation.isLawful_standard : standard.IsLawful where
  trans
    | .ascending => inferInstanceAs (Std.TransCmp Datum.compare)
    | .descending => inferInstanceAs (Std.TransCmp fun x y => Datum.compare y x)
  alike {d d' x y} heq := by
    have hsymm {x y : Datum} : x.compare y = .eq → y.compare x = .eq := Std.OrientedCmp.eq_symm
    cases d <;> cases d'
    case ascending.ascending | descending.descending => exact heq
    case ascending.descending | descending.ascending => exact hsymm heq

theorem Collation.hasDirections_standard : standard.HasDirections :=
  ⟨.bool false, .bool true, by decide +kernel⟩

end Listing

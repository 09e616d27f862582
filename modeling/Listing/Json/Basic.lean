/-
# JSON values

A JSON value keeps the order of its object entries, because that order decides which of two faults
in a filter is reported and how the entries of a filter are arranged. A key occurs once: writing
it again replaces the value and keeps the place. Whole numbers of 64 bits, signed or unsigned, are
integers; every other number is a double.
-/
import Listing.Number.Double

namespace Listing

inductive Json where
  | null
  | bool (value : Bool)
  | int (value : Int)
  | double (value : Double)
  | string (value : String)
  | array (items : List Json)
  | object (entries : List (String × Json))
  deriving Inhabited, Repr, BEq

/-- Write `value` under `key` in a list of entries: in place where the key occurs, at the end where
it does not. -/
def insertEntry {α : Type _} (key : String) (value : α) : List (String × α) → List (String × α)
  | [] => [(key, value)]
  | (k, v) :: entries =>
    if k = key then (key, value) :: entries else (k, v) :: insertEntry key value entries

namespace Json

/-- The object with these entries written one after the other. -/
def ofEntries (entries : List (String × Json)) : Json :=
  .object (entries.foldl (fun acc e => insertEntry e.1 e.2 acc) [])

/-- The value under a key of an object; none for a missing key and for what is no object. -/
def get? (key : String) : Json → Option Json
  | .object entries => entries.lookup key
  | _ => none

/-- The text of a JSON string. -/
def asString? : Json → Option String
  | .string s => some s
  | _ => none

/-- The items of a JSON array. -/
def asArray? : Json → Option (List Json)
  | .array items => some items
  | _ => none

/-- A number that is a signed 64-bit integer. -/
def asSigned? : Json → Option Int
  | .int n => if Number.fitsSigned n then some n else none
  | _ => none

/-- A number that is an unsigned 64-bit integer. -/
def asUnsigned? : Json → Option Nat
  | .int n => if Number.fitsUnsigned n then some n.toNat else none
  | _ => none

/-- A list of texts as a JSON array. -/
def strings (texts : List String) : Json := .array (texts.map .string)

/-- A value that may be absent, written as null when it is. -/
def orNull {α : Type} (write : α → Json) : Option α → Json
  | none => .null
  | some a => write a

end Json

/-- The keys of the entries after writing one: the same keys where it occurs, and otherwise the key
at the end. -/
theorem map_fst_insertEntry {α : Type _} (key : String) (value : α) (entries : List (String × α)) :
    (insertEntry key value entries).map Prod.fst =
      if key ∈ entries.map Prod.fst then entries.map Prod.fst
      else entries.map Prod.fst ++ [key] := by
  induction entries with
  | nil => simp [insertEntry]
  | cons e entries ih =>
    obtain ⟨k, v⟩ := e
    by_cases hk : k = key
    · simp [insertEntry, hk]
    · have hk' : ¬ key = k := fun h => hk h.symm
      simp only [insertEntry, hk, if_false, List.map_cons, ih, List.mem_cons, hk', false_or]
      split <;> simp

/-- Different keys stay different. -/
theorem nodup_insertEntry {α : Type _} {key : String} {value : α} {entries : List (String × α)}
    (hnodup : (entries.map Prod.fst).Nodup) :
    ((insertEntry key value entries).map Prod.fst).Nodup := by
  rw [map_fst_insertEntry]
  split
  · exact hnodup
  · rename_i hfresh
    refine List.nodup_append.2 ⟨hnodup, List.pairwise_singleton _ key, ?_⟩
    rintro first hfirst last hlast rfl
    exact hfresh (List.mem_singleton.1 hlast ▸ hfirst)

/-- What was written under a key is found under it. -/
theorem lookup_insertEntry_self {α : Type _} (key : String) (value : α)
    (entries : List (String × α)) : (insertEntry key value entries).lookup key = some value := by
  induction entries with
  | nil => simp [insertEntry]
  | cons e entries ih =>
    obtain ⟨k, v⟩ := e
    by_cases hk : k = key
    · simp [insertEntry, hk]
    · have hk' : (key == k) = false := by simpa using fun h => hk h.symm
      simp [insertEntry, hk, List.lookup_cons, hk', ih]

/-- Writing under one key leaves what is found under another. -/
theorem lookup_insertEntry_ne {α : Type _} {key other : String} (h : other ≠ key) (value : α)
    (entries : List (String × α)) :
    (insertEntry key value entries).lookup other = entries.lookup other := by
  have hne : (other == key) = false := by simpa using h
  induction entries with
  | nil => simp [insertEntry, List.lookup_cons, hne]
  | cons e entries ih =>
    obtain ⟨k, v⟩ := e
    by_cases hk : k = key
    · subst hk; simp [insertEntry, List.lookup_cons, hne]
    · simp [insertEntry, hk, List.lookup_cons, ih]

/-- What is found under a key is an entry with the key. -/
theorem mem_of_lookup {κ β : Type} [BEq κ] [LawfulBEq κ] {entries : List (κ × β)} {key : κ} {b : β}
    (hlookup : entries.lookup key = some b) : (key, b) ∈ entries := by
  obtain ⟨before, after, rfl, _⟩ := List.lookup_eq_some_iff.1 hlookup
  simp

/-- Writing an entry adds no other one. -/
theorem mem_insertEntry {α : Type _} {key : String} {value : α} {entries : List (String × α)}
    {entry : String × α} (hentry : entry ∈ insertEntry key value entries) :
    entry = (key, value) ∨ entry ∈ entries := by
  induction entries with
  | nil => exact .inl (List.mem_singleton.1 hentry)
  | cons first entries ih =>
      rw [insertEntry] at hentry
      split at hentry
      · exact (List.mem_cons.1 hentry).imp_right (List.mem_cons_of_mem first)
      · rcases List.mem_cons.1 hentry with rfl | hmem
        · exact .inr List.mem_cons_self
        · exact (ih hmem).imp_right (List.mem_cons_of_mem first)

/-- Writing entries one after the other adds no others. -/
theorem mem_foldl_insertEntry {α : Type _} {written entries : List (String × α)}
    {entry : String × α}
    (hentry : entry ∈ entries.foldl (fun acc e => insertEntry e.1 e.2 acc) written) :
    entry ∈ written ∨ entry ∈ entries := by
  induction entries generalizing written with
  | nil => exact .inl hentry
  | cons first entries ih =>
      rcases ih hentry with hwritten | hlater
      · rcases mem_insertEntry hwritten with rfl | hbefore
        · exact .inr List.mem_cons_self
        · exact .inl hbefore
      · exact .inr (List.mem_cons_of_mem first hlater)

end Listing

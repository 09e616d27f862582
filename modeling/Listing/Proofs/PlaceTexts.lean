/-
# The texts of places

The text of a place is read back as the steps that it was written for, if no key on the way has a
dot or a bracket: every step begins with a mark of its own, and no mark stands inside of one.
-/
import Listing.Proofs.Support.Numerals
import Listing.Proofs.UniqueKeys

namespace Listing

/-! ### Following steps -/

namespace Json

variable {root value inner : Json} {before steps : Position} {step : Step}

theorem follow?_append (value : Json) (before steps : Position) :
    value.follow? (before ++ steps) = (value.follow? before).bind (·.follow? steps) := by
  induction before generalizing value with
  | nil => rfl
  | cons step before ih =>
      rw [List.cons_append, follow?, follow?]
      cases value.step? step with
      | none => rfl
      | some inner => exact ih inner

theorem follow?_singleton (value : Json) (step : Step) :
    value.follow? [step] = value.step? step := by
  rw [follow?]
  cases value.step? step <;> rfl

/-- One more step goes on from where the steps before it lead. -/
theorem follow?_snoc (hbefore : root.follow? before = some value) (step : Step) :
    root.follow? (before ++ [step]) = value.step? step := by
  rw [follow?_append, hbefore, Option.bind_some, follow?_singleton]

/-- Under different keys, an entry is what its key leads to. -/
theorem step?_of_mem {entries : List (String × Json)} (hunique : (object entries).HasUniqueKeys)
    {entry : String × Json} (hentry : entry ∈ entries) :
    (object entries).step? (.key entry.1) = some entry.2 :=
  (Params.mem_iff_lookup (everywhere_object.1 hunique).1).1 hentry

end Json

namespace FilterDocument

/-! ### Texts of places -/

/-- A step with a key in which no character means something else. -/
def IsPlain : Step → Prop
  | .key name => ∀ c ∈ name.toList, c ≠ '.' ∧ c ≠ '[' ∧ c ≠ ']'
  | .item _ => True

section

variable {before steps : Position} {step : Step} {root value : Json}

theorem placeOf_snoc_key (before : Position) (key : String) :
    placeOf (before ++ [.key key]) = entryPlace (placeOf before) key := by
  rw [← String.toList_inj]
  simp [placeOf, entryPlace, stepChars]

theorem placeOf_snoc_item (before : Position) (index : Nat) :
    placeOf (before ++ [.item index]) = itemPlace (placeOf before) index := by
  rw [← String.toList_inj]
  simp [placeOf, itemPlace, stepChars]

/-- Characters that are no marks are collected. -/
theorem foldr_readChar {cs : List Char} (hcs : ∀ c ∈ cs, c ≠ '.' ∧ c ≠ '[')
    (seen : List Char) (steps : Position) :
    cs.foldr readChar (seen, steps) = (cs ++ seen, steps) := by
  induction cs with
  | nil => rfl
  | cons c cs ih =>
      obtain ⟨⟨hdot, hbracket⟩, hcs⟩ := List.forall_mem_cons.1 hcs
      rw [List.foldr_cons, ih hcs, readChar, if_neg hdot, if_neg hbracket, List.cons_append]

/-- The characters of a step are read as the step. -/
theorem foldr_readChar_stepChars (hplain : IsPlain step) (steps : Position) :
    (stepChars step).foldr readChar ([], steps) = ([], step :: steps) := by
  cases step with
  | key name =>
      have hname : ∀ c ∈ name.toList, c ≠ '.' ∧ c ≠ '[' := fun c hc =>
        ⟨(hplain c hc).1, (hplain c hc).2.1⟩
      rw [stepChars, List.foldr_cons, foldr_readChar hname, List.append_nil, readChar, if_pos rfl,
        String.ofList_toList]
  | item index =>
      have hchars : ∀ c ∈ Number.digits index ++ [']'], c ≠ '.' ∧ c ≠ '[' := by
        intro c hc
        rcases List.mem_append.1 hc with hdigit | hclose
        · have hc := Number.isDigit_of_mem_digits hdigit
          constructor <;> rintro rfl <;> exact absurd hc (by decide)
        · rw [List.mem_singleton.1 hclose]
          decide
      rw [stepChars, List.cons_append, List.foldr_cons, foldr_readChar hchars, List.append_nil,
        readChar, if_neg (by decide), if_pos rfl, List.dropLast_concat, Number.ofDigits_digits]

theorem foldr_readChar_flatMap (hplain : ∀ step ∈ steps, IsPlain step) :
    (steps.flatMap stepChars).foldr readChar ([], []) = ([], steps) := by
  induction steps with
  | nil => rfl
  | cons step steps ih =>
      obtain ⟨hstep, hsteps⟩ := List.forall_mem_cons.1 hplain
      rw [List.flatMap_cons, List.foldr_append, ih hsteps, foldr_readChar_stepChars hstep]

/-- A place with plain keys is read from its text. -/
theorem readPlace_placeOf (hplain : ∀ step ∈ steps, IsPlain step) :
    readPlace (placeOf steps) = some steps := by
  have hparam : ∀ c ∈ Param.search.toList, c ≠ '.' ∧ c ≠ '[' := by simp [Param.search]
  rw [readPlace, placeOf, String.toList_append, String.toList_ofList, List.foldr_append,
    foldr_readChar_flatMap hplain, foldr_readChar hparam, List.append_nil]
  exact if_pos rfl

/-- In a document with plain keys, only plain steps lead anywhere. -/
theorem isPlain_of_follow? (hroot : root.HasPlainKeys) (hfollow : root.follow? steps = some value) :
    ∀ step ∈ steps, IsPlain step := by
  induction steps generalizing root with
  | nil => simp
  | cons step steps ih =>
      obtain ⟨inner, hstep, hrest⟩ := Option.bind_eq_some_iff.1 hfollow
      refine List.forall_mem_cons.2 ⟨?_, ih (hroot.step? hstep) hrest⟩
      cases step with
      | item index => trivial
      | key name =>
          cases root with
          | object entries => exact (Json.everywhere_object.1 hroot).1 _ (mem_of_lookup hstep)
          | _ => cases hstep

end

end FilterDocument
end Listing

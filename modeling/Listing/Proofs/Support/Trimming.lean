/-
# Trimming

A trimmed text is one that neither begins nor ends with a blank. What stands between its ends does
not matter, so that trimmed texts may be put together.
-/
import Listing.Text.Blank

namespace Listing.Text

/-- What does not begin with a blank has none to skip. -/
theorem skipBlanks_of_head {cs : List Char} (hcs : ∀ c ∈ cs.head?, isBlank c = false) :
    skipBlanks cs = cs := by
  cases cs with
  | nil => rfl
  | cons c cs => simp [skipBlanks, hcs c rfl]

/-- What is left of a trimmed text begins with a character that is not blank. -/
theorem head_trimChars {cs rest : List Char} {c : Char} (htrim : trimChars cs = c :: rest) :
    isBlank c = false := by
  have hstarts : trimChars cs <+: skipBlanks cs := by
    rw [trimChars, ← List.reverse_suffix, List.reverse_reverse]
    exact List.dropWhile_suffix isBlank
  rw [htrim] at hstarts
  obtain ⟨behind, hbehind⟩ := hstarts
  have hhead := List.head?_dropWhile_not isBlank cs
  rw [← skipBlanks, ← hbehind] at hhead
  exact hhead

/-- Trimming leaves a text as it is if there is no blank at its ends. -/
theorem trim_eq_self_iff {s : String} : trim s = s ↔
    (∀ c ∈ s.toList.head?, isBlank c = false) ∧ ∀ c ∈ s.toList.getLast?, isBlank c = false := by
  constructor
  · intro htrim
    have hchars : trimChars s.toList = s.toList := by
      rw [← String.toList_inj] at htrim
      simpa [trim] using htrim
    refine ⟨fun c hc => ?_, fun c hc => ?_⟩
    · obtain ⟨rest, hrest⟩ := List.head?_eq_some_iff.1 hc
      exact head_trimChars (hchars.trans hrest)
    · have hhead := List.head?_dropWhile_not isBlank (skipBlanks s.toList).reverse
      rw [← hchars, trimChars, List.getLast?_reverse, skipBlanks] at hc
      rwa [Option.mem_def.1 hc] at hhead
  · rintro ⟨hfirst, hlast⟩
    rw [trim, trimChars, skipBlanks_of_head hfirst, skipBlanks_of_head (by simpa using hlast),
      List.reverse_reverse, String.ofList_toList]

/-- Trimming leaves a text without blanks as it is. -/
theorem trim_of_forall {s : String} (hs : ∀ c ∈ s.toList, isBlank c = false) : trim s = s :=
  trim_eq_self_iff.2 ⟨fun c hc => hs c (List.mem_of_mem_head? hc),
    fun c hc => hs c (List.mem_of_getLast? hc)⟩

theorem trim_append {s t : String} (hs : trim s = s) (ht : trim t = t) :
    trim (s ++ t) = s ++ t := by
  rw [trim_eq_self_iff] at hs ht ⊢
  rw [String.toList_append]
  refine ⟨fun c hc => ?_, fun c hc => ?_⟩
  · rw [List.head?_append, Option.mem_def, Option.or_eq_some_iff] at hc
    exact hc.elim (hs.1 c) fun hrest => ht.1 c hrest.2
  · rw [List.getLast?_append, Option.mem_def, Option.or_eq_some_iff] at hc
    exact hc.elim (ht.2 c) fun hrest => hs.2 c hrest.2

/-- Trimmed texts with a trimmed separator between them are a trimmed text. -/
theorem trim_intercalate {separator : String} (hseparator : trim separator = separator)
    {items : List String} (hitems : ∀ item ∈ items, trim item = item) :
    trim (separator.intercalate items) = separator.intercalate items := by
  induction items with
  | nil => rfl
  | cons item items ih =>
      obtain ⟨hitem, hrest⟩ := List.forall_mem_cons.1 hitems
      cases items with
      | nil => rwa [String.intercalate_singleton]
      | cons next items =>
          rw [String.intercalate_cons_cons]
          exact trim_append (trim_append hitem hseparator) (ih hrest)

end Listing.Text

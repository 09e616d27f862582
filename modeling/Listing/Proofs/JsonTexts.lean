/-
# Texts of objects and arrays

The first character of a text decides what it may be read as. A string is read up to its end as one
token, and so is a number or a literal, and none of them opens anything. So what is read as an
object or as an array begins with a bracket, after the space that may stand between tokens.
-/
import Listing.Json.Reader
import Listing.Proofs.Support.Trimming

namespace Listing.Json

/-- An object or an array. -/
def isContainer : Json → Bool
  | .array _ | .object _ => true
  | _ => false

theorem isContainer_of_unsignedNumber? {negative : Bool} {cs : List Char} {value : Json}
    (hvalue : unsignedNumber? negative cs = some value) : value.isContainer = false := by
  grind [unsignedNumber?, wholeNumber?, isContainer, Option.map_eq_some_iff]

/-- A word is a number or a literal. -/
theorem isContainer_of_wordValue? {cs : List Char} {value : Json}
    (hvalue : wordValue? cs = some value) : value.isContainer = false := by
  have hnumber : number? cs = some value → value.isContainer = false := by
    unfold number?
    split <;> exact isContainer_of_unsignedNumber?
  grind [wordValue?, isContainer]

/-! ### The first token -/

/-- Inside of a string. -/
def Scan.isText : Scan → Bool
  | .between | .word _ => false
  | _ => true

theorem isText_of_finishUnit {seen : List Char} {high : Option Nat} {value : Nat} {after : Scan}
    (hfinish : finishUnit seen high value = some after) : after.isText = true := by
  cases high <;> grind [finishUnit, Scan.isText]

section

variable {done next tokens : List Token} {c : Char} {cs : List Char} {state after : Scan}

/-- A character of a string leaves the tokens, unless it is the last one of the string. -/
theorem scanStep_text (htext : state.isText = true)
    (hstep : scanStep done state c = some (next, after)) :
    next = done ∧ after.isText = true ∨ ∃ s, next = .text s :: done := by
  cases state with
  | between | word => cases htext
  | unit seen high missing value =>
      obtain ⟨digit, _, hstep⟩ := Option.bind_eq_some_iff.1 hstep
      grind [Scan.isText, isText_of_finishUnit, Option.map_eq_some_iff]
  | _ => grind [scanStep, Scan.isText, Option.map_eq_some_iff]

theorem suffix_of_startToken (hstart : startToken done c = some (next, state)) :
    done <:+ next := by
  grind [startToken, Option.map_eq_some_iff, List.suffix_cons]

/-- A character adds tokens to those before it. -/
theorem suffix_of_scanStep (hstep : scanStep done state c = some (next, after)) :
    done <:+ next := by
  cases state with
  | between => exact suffix_of_startToken hstep
  | word seen =>
      rw [scanStep] at hstep
      split at hstep
      · cases hstep
        exact List.suffix_rfl
      · obtain ⟨value, _, hstart⟩ := Option.bind_eq_some_iff.1 hstep
        exact (List.suffix_cons _ done).trans (suffix_of_startToken hstart)
  | _ =>
      rcases scanStep_text rfl hstep with ⟨rfl, -⟩ | ⟨s, rfl⟩
      · exact List.suffix_rfl
      · exact List.suffix_cons _ done

/-- The characters of a text are read one after the other. -/
theorem scanFrom_cons (hscan : scanFrom done state (c :: cs) = some tokens) :
    ∃ next after, scanStep done state c = some (next, after) ∧
      scanFrom next after cs = some tokens := by
  cases hstep : scanStep done state c with
  | none => simp [scanFrom, hstep] at hscan
  | some next => exact ⟨next.1, next.2, rfl, by simpa [scanFrom, hstep] using hscan⟩

/-- Tokens that were read stay the first ones. -/
theorem prefix_of_scanFrom (hscan : scanFrom done state cs = some tokens) :
    done.reverse <+: tokens := by
  induction cs generalizing done state with
  | nil =>
      cases state with
      | between =>
          cases hscan
          exact List.prefix_rfl
      | word seen =>
          obtain ⟨value, _, rfl⟩ := Option.map_eq_some_iff.1 hscan
          exact List.reverse_prefix.2 (List.suffix_cons _ done)
      | _ => cases hscan
  | cons c cs ih =>
      obtain ⟨next, after, hstep, hrest⟩ := scanFrom_cons hscan
      exact (List.reverse_prefix.2 (suffix_of_scanStep hstep)).trans (ih hrest)

/-- From inside of the first string, it is the first token. -/
theorem exists_text_of_scanFrom (htext : state.isText = true)
    (hscan : scanFrom [] state cs = some tokens) : ∃ s, [.text s] <+: tokens := by
  induction cs generalizing state with
  | nil => cases state <;> simp_all [scanFrom, Scan.isText]
  | cons c cs ih =>
      obtain ⟨next, after, hstep, hrest⟩ := scanFrom_cons hscan
      rcases scanStep_text htext hstep with ⟨rfl, hafter⟩ | ⟨s, rfl⟩
      · exact ih hafter hrest
      · exact ⟨s, prefix_of_scanFrom hrest⟩

/-- From inside of the first word, it is the first token. -/
theorem exists_atom_of_scanFrom {seen : List Char}
    (hscan : scanFrom [] (.word seen) cs = some tokens) :
    ∃ value, value.isContainer = false ∧ [.atom value] <+: tokens := by
  induction cs generalizing seen with
  | nil =>
      obtain ⟨value, hvalue, rfl⟩ := Option.map_eq_some_iff.1 hscan
      exact ⟨value, isContainer_of_wordValue? hvalue, List.prefix_rfl⟩
  | cons c cs ih =>
      obtain ⟨next, after, hstep, hrest⟩ := scanFrom_cons hscan
      rw [scanStep] at hstep
      split at hstep
      · cases hstep
        exact ih hrest
      · obtain ⟨value, hvalue, hstart⟩ := Option.bind_eq_some_iff.1 hstep
        refine ⟨value, isContainer_of_wordValue? hvalue, ?_⟩
        exact (List.reverse_prefix.2 (suffix_of_startToken hstart)).trans (prefix_of_scanFrom hrest)

end

/-! ### The value -/

/-- After a complete value there is nothing. -/
theorem eq_of_run_nothing {result value : Json} {tokens : List Token}
    (hrun : Reading.run ⟨[], .nothing result⟩ tokens = some value) : value = result := by
  cases tokens with
  | nil => exact (Option.some.inj hrun).symm
  | cons token tokens => cases hrun

/-- If the first token opens nothing, the value is neither an object nor an array. -/
theorem isContainer_of_run {token : Token} {tokens : List Token} {value : Json}
    (htoken : token ≠ .openArray ∧ token ≠ .openObject ∧
      ∀ atom, token = .atom atom → atom.isContainer = false)
    (hrun : Reading.run ⟨[], .value⟩ (token :: tokens) = some value) :
    value.isContainer = false := by
  obtain ⟨harray, hobject, hatom⟩ := htoken
  cases token with
  | openArray => exact absurd rfl harray
  | openObject => exact absurd rfl hobject
  | text s =>
      have hvalue : value = .string s := eq_of_run_nothing hrun
      rw [hvalue]
      rfl
  | atom v =>
      have hvalue : value = v := eq_of_run_nothing hrun
      rw [hvalue]
      exact hatom v rfl
  | _ => cases hrun

/-- A text that begins with something else than space or a bracket holds neither an object nor an
array. -/
theorem isContainer_of_head {s : String} {c : Char} {cs : List Char} {value : Json}
    (hs : s.toList = c :: cs) (hspace : isSpace c = false) (hbrace : c ≠ '{') (hbracket : c ≠ '[')
    (hread : read? s = some value) : value.isContainer = false := by
  obtain ⟨tokens, htokens, hrun⟩ := Option.bind_eq_some_iff.1 hread
  rw [tokens?, hs] at htokens
  obtain ⟨done, state, hstart, hrest⟩ := scanFrom_cons htokens
  rw [scanStep, startToken, if_neg (by simp [hspace])] at hstart
  split at hstart
  · cases hstart
    obtain ⟨text, rest, rfl⟩ := exists_text_of_scanFrom rfl hrest
    exact isContainer_of_run (by simp) hrun
  · split at hstart
    · cases hstart
      obtain ⟨atom, hatom, rest, rfl⟩ := exists_atom_of_scanFrom hrest
      exact isContainer_of_run (by simpa using hatom) hrun
    · obtain ⟨token, hmark, heq⟩ := Option.map_eq_some_iff.1 hstart
      cases heq
      obtain ⟨rest, rfl⟩ := prefix_of_scanFrom hrest
      refine isContainer_of_run ?_ hrun
      grind [mark?]

/-- A trimmed text does not begin with the space that may stand between tokens. -/
theorem isSpace_head_trim {text : String} {c : Char}
    (hhead : c ∈ (Text.trim text).toList.head?) : isSpace c = false := by
  obtain ⟨rest, hrest⟩ := List.head?_eq_some_iff.1 hhead
  have hchars : (Text.trim text).toList = Text.trimChars text.toList := String.toList_ofList
  have hblank : Text.isBlank c = false := Text.head_trimChars (hchars.symm.trans hrest)
  rw [Bool.eq_false_iff]
  intro hspace
  simp only [isSpace, Bool.or_eq_true, beq_iff_eq] at hspace
  rcases hspace with ((rfl | rfl) | rfl) | rfl <;> cases hblank

/-! ### Lists of texts -/

/-- Texts are found in a list exactly if it is the list of them. -/
theorem mapM_asString?_eq_some {items : List Json} {texts : List String} :
    items.mapM asString? = some texts ↔ items = texts.map .string := by
  induction items generalizing texts with
  | nil => cases texts <;> simp
  | cons item items ih =>
      rw [List.mapM_cons]
      cases item with
      | string s => cases texts <;> simp [asString?, ih, Option.bind_eq_some_iff, and_left_comm]
      | _ => cases texts <;> simp [asString?]

end Listing.Json

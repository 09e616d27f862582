/-
# Arrays of texts

A list of texts is written as a JSON array of strings. What is read as an array begins with its
bracket, since what begins with a brace is read as an object. And a list that is written is read
back: an escaped character as the character, a string as one token, and the items in their order.
-/
import Listing.Json.Printer
import Listing.Proofs.JsonTexts
import Mathlib.Tactic.IntervalCases

namespace Listing.Json

/-! ### The bracket of an array -/

/-- The outermost of the open containers is an object. -/
def BeginsWithObject : List Frame → Prop
  | [] => False
  | .array _ :: stack => BeginsWithObject stack
  | .object _ :: stack | .entry .. :: stack => stack = [] ∨ BeginsWithObject stack

/-- The outermost container is an object, and so is the value once it is complete. -/
def Reading.IsInObject (reading : Reading) : Prop :=
  match reading.wanted with
  | .nothing value => ∃ entries, value = .object entries
  | _ => BeginsWithObject reading.stack

namespace Reading

variable {reading next : Reading} {token : Token} {value : Json} {stack : List Frame}

/-- A complete value goes into the innermost container, or was the outermost one itself. -/
theorem isInObject_of_complete
    (hplace : BeginsWithObject stack ∨ stack = [] ∧ ∃ entries, value = .object entries)
    (hcomplete : complete value stack = some next) : next.IsInObject := by
  cases stack with
  | nil =>
      cases hcomplete
      exact (hplace.resolve_left id).2
  | cons frame stack =>
      have hstack := hplace.resolve_right (by simp)
      cases frame with
      | array items | entry entries key =>
          cases hcomplete
          exact hstack
      | object entries => cases hcomplete

theorem isInObject_of_beginValue (hstack : BeginsWithObject stack)
    (hbegin : beginValue stack token = some next) : next.IsInObject := by
  cases token with
  | atom value | text s => exact isInObject_of_complete (.inl hstack) hbegin
  | openArray =>
      simp only [beginValue, push, Option.ite_none_right_eq_some, Option.some.injEq] at hbegin
      exact hbegin.2 ▸ hstack
  | openObject =>
      simp only [beginValue, push, Option.ite_none_right_eq_some, Option.some.injEq] at hbegin
      exact hbegin.2 ▸ Or.inr hstack
  | _ => cases hbegin

/-- No token leads out of the outermost object but the brace that ends it. -/
theorem IsInObject.step (hreading : reading.IsInObject)
    (hstep : reading.step token = some next) : next.IsInObject := by
  obtain ⟨stack, wanted⟩ := reading
  have hobject {entries : List (String × Json)} {outer : List Frame}
      (hstack : BeginsWithObject (.object entries :: outer)) :
      BeginsWithObject outer ∨ outer = [] ∧ ∃ entries', object entries = object entries' :=
    hstack.symm.imp_right fun hempty => ⟨hempty, entries, rfl⟩
  unfold Reading.step at hstep
  split at hstep <;> dsimp only at *
  case h_1 hwanted | h_3 hwanted _ =>
    subst hwanted
    exact isInObject_of_beginValue hreading hstep
  case h_2 hwanted hstack | h_10 hwanted hstack =>
    subst hwanted hstack
    refine isInObject_of_complete (.inl ?_) hstep
    exact hreading
  case h_4 hwanted hstack | h_11 hwanted hstack =>
    subst hwanted hstack
    exact isInObject_of_complete (hobject hreading) hstep
  case h_5 hwanted | h_6 hwanted =>
    subst hwanted
    cases hstep
    exact hreading
  case h_7 hwanted hstack | h_8 hwanted hstack | h_9 hwanted hstack =>
    subst hwanted hstack
    cases hstep
    exact hreading
  case h_12 => cases hstep

theorem IsInObject.run (hreading : reading.IsInObject) {tokens : List Token}
    (hrun : reading.run tokens = some value) : ∃ entries, value = .object entries := by
  induction tokens generalizing reading with
  | nil =>
      obtain ⟨stack, wanted⟩ := reading
      cases wanted with
      | nothing result =>
          cases hrun
          exact hreading
      | _ => cases hrun
  | cons token tokens ih =>
      rw [Reading.run] at hrun
      split at hrun
      · rename_i hstep
        exact ih (hreading.step hstep) hrun
      · cases hrun

end Reading

/-- What begins with a brace is no array. -/
theorem exists_object_of_brace {s : String} {cs : List Char} {value : Json}
    (hs : s.toList = '{' :: cs) (hread : read? s = some value) :
    ∃ entries, value = .object entries := by
  obtain ⟨tokens, htokens, hrun⟩ := Option.bind_eq_some_iff.1 hread
  rw [tokens?, hs] at htokens
  obtain ⟨done, state, hstart, hrest⟩ := scanFrom_cons htokens
  cases hstart
  obtain ⟨rest, rfl⟩ := prefix_of_scanFrom hrest
  have hopened : Reading.IsInObject ⟨[.object []], .keyOrClose⟩ := .inl rfl
  exact hopened.run hrun

/-- What is read as an array begins with its bracket. -/
theorem head?_of_read?_array {s : String} {items : List Json}
    (hread : read? s = some (.array items)) (hspace : ∀ c ∈ s.toList.head?, isSpace c = false) :
    s.toList.head? = some '[' := by
  cases hs : s.toList with
  | nil =>
      rw [String.toList_eq_nil_iff.1 hs] at hread
      cases hread
  | cons c cs =>
      by_cases hbracket : c = '['
      · rw [hbracket]
        rfl
      · by_cases hbrace : c = '{'
        · subst hbrace
          obtain ⟨entries, heq⟩ := exists_object_of_brace hs hread
          cases heq
        · have hcontainer :=
            isContainer_of_head hs (hspace c (by simp [hs])) hbrace hbracket hread
          cases hcontainer

/-! ### Writing and reading texts -/

section

variable {done : List Token} {seen rest : List Char}

/-- The escape of a control character is read as the character. -/
theorem scanFrom_controlEscape {c : Char} (hc : c.toNat < 0x20) :
    scanFrom done (.text seen) (controlEscape c ++ rest) =
      scanFrom done (.text (c :: seen)) rest := by
  obtain ⟨n, hn⟩ : ∃ n, n = c.toNat := ⟨_, rfl⟩
  have hchar : c = Char.ofNat n := by rw [hn, Char.ofNat_toNat]
  rw [← hn] at hc
  subst hchar
  interval_cases n <;> rfl

/-- A character of a string is read as it was written. -/
theorem scanFrom_escapeChar (c : Char) :
    scanFrom done (.text seen) (escapeChar c ++ rest) =
      scanFrom done (.text (c :: seen)) rest := by
  unfold escapeChar
  split
  · rename_i hc
    subst hc
    rfl
  · split
    · rename_i hc
      subst hc
      rfl
    · split
      · rename_i hc
        exact scanFrom_controlEscape hc
      · rename_i hquote hbackslash hcontrol
        simp [scanFrom, scanStep, hquote, hbackslash, hcontrol]

theorem scanFrom_escaped (cs : List Char) :
    scanFrom done (.text seen) (cs.flatMap escapeChar ++ rest) =
      scanFrom done (.text (cs.reverse ++ seen)) rest := by
  induction cs generalizing seen with
  | nil => rfl
  | cons c cs ih => rw [List.flatMap_cons, List.append_assoc, scanFrom_escapeChar, ih]; simp

/-- A string is one token. -/
theorem scanFrom_quoted (s : String) :
    scanFrom done .between (quoted s ++ rest) = scanFrom (.text s :: done) .between rest := by
  have hopen : scanFrom done .between (quoted s ++ rest) =
      scanFrom done (.text []) (s.toList.flatMap escapeChar ++ '"' :: rest) := by
    simp [quoted, scanFrom, scanStep, startToken, isSpace]
  rw [hopen, scanFrom_escaped]
  simp [scanFrom, scanStep]

end

/-- The tokens after the first text of an array. -/
def laterTokens : List String → List Token
  | [] => [.closeArray]
  | s :: texts => .comma :: .text s :: laterTokens texts

theorem scanFrom_itemChars (done : List Token) (texts : List String) :
    scanFrom done .between (itemChars (texts.map .string)) =
      some (done.reverse ++ laterTokens texts) := by
  induction texts generalizing done with
  | nil => exact congrArg some List.reverse_cons
  | cons s texts ih =>
      show scanFrom (.comma :: done) .between (quoted s ++ itemChars (texts.map .string)) = _
      rw [scanFrom_quoted, ih]
      simp [laterTokens]

theorem run_laterTokens (items : List Json) (texts : List String) :
    Reading.run ⟨[.array items], .commaOrClose⟩ (laterTokens texts) =
      some (.array (items.reverse ++ texts.map .string)) := by
  induction texts generalizing items with
  | nil => simp [laterTokens, Reading.run, Reading.step, Reading.complete]
  | cons s texts ih =>
      show Reading.run ⟨[.array (.string s :: items)], .commaOrClose⟩ (laterTokens texts) = _
      rw [ih]
      simp

/-- A list of texts that is written is read back. -/
theorem read?_render_strings (texts : List String) :
    read? (strings texts).render = some (strings texts) := by
  cases texts with
  | nil => rfl
  | cons s texts =>
      have htokens : tokens? (strings (s :: texts)).render =
          some (.openArray :: .text s :: laterTokens texts) := by
        rw [tokens?, render, String.toList_ofList]
        show scanFrom [.openArray] .between (quoted s ++ itemChars (texts.map .string)) = _
        rw [scanFrom_quoted, scanFrom_itemChars]
        rfl
      rw [read?, htokens]
      show Reading.run ⟨[.array [.string s]], .commaOrClose⟩ (laterTokens texts) = _
      rw [run_laterTokens]
      rfl

theorem getLast?_itemChars (items : List Json) : (itemChars items).getLast? = some ']' := by
  induction items with
  | nil => rfl
  | cons item items ih =>
      rw [itemChars, List.getLast?_append, ih, Option.some_or]

/-- A list of texts is written without blanks at its ends. -/
theorem trim_render_strings (texts : List String) :
    Text.trim (strings texts).render = (strings texts).render := by
  have hends : (chars (strings texts)).head? = some '[' ∧
      (chars (strings texts)).getLast? = some ']' := by
    cases texts with
    | nil => exact ⟨rfl, rfl⟩
    | cons s texts =>
        have hlast := getLast?_itemChars (texts.map .string)
        refine ⟨rfl, ?_⟩
        show ('[' :: quoted s ++ itemChars (texts.map .string)).getLast? = _
        rw [List.getLast?_append, hlast, Option.some_or]
  rw [Text.trim_eq_self_iff, render, String.toList_ofList, hends.1, hends.2]
  constructor
  · rintro c ⟨⟩
    rfl
  · rintro c ⟨⟩
    rfl

end Listing.Json

/-
# The language of a text search

The configuration of text search stands in quotes, inside of the template of a search. Its own
quotes are doubled, and that is all that is done to it. This keeps the quotation together as long as
no backslash in the configuration hides a quote, or what ends the quotation; behind one that does,
what was meant to be quoted is read as text and what follows it as quoted. And a pair of braces in
the configuration is one more hole.
-/
import Listing.Proofs.TemplateReading

namespace Listing.Sql
namespace Template

/-! ### Counting holes -/

/-- The number of holes in a text. -/
def holeCount (cs : List Char) : Nat := (cut cs).length - 1

theorem length_cut (cs : List Char) : (cut cs).length = holeCount cs + 1 := by
  have hpos : 0 < (cut cs).length := List.length_pos_iff.2 (cut_ne_nil cs)
  rw [holeCount]
  omega

theorem holeCount_hole (cs : List Char) : holeCount ('{' :: '}' :: cs) = holeCount cs + 1 := by
  rw [holeCount, cut_hole, List.length_cons, length_cut, Nat.add_sub_cancel]

section

variable {c : Char} {cs : List Char}

theorem not_begins_hole (hpair : ∀ rest, c = '{' → cs = '}' :: rest → False) :
    ¬ (c = '{' ∧ cs.head? = some '}') := by
  rintro ⟨hc, hhead⟩
  obtain ⟨rest, hrest⟩ := List.head?_eq_some_iff.1 hhead
  exact hpair rest hc hrest

theorem holeCount_cons (hplain : ¬ (c = '{' ∧ cs.head? = some '}')) :
    holeCount (c :: cs) = holeCount cs := by
  rw [holeCount, holeCount, cut_cons hplain]
  cases hcut : cut cs with
  | nil => exact absurd hcut (cut_ne_nil cs)
  | cons piece pieces => rfl

/-- A text without a hole is one piece. -/
theorem cut_of_holeCount (hcount : holeCount cs = 0) : cut cs = [cs] := by
  induction cs using cut.induct with
  | case1 => rfl
  | case2 cs ih => cases holeCount_hole cs ▸ hcount
  | case3 c cs hpair ih =>
      have hplain := not_begins_hole hpair
      rw [cut_cons hplain, ih (holeCount_cons hplain ▸ hcount), growFirst_cons]

end

/-- Two texts have no more holes than their concatenation, in which one may stand across. -/
theorem holeCount_append_le (a b : List Char) :
    holeCount a + holeCount b ≤ holeCount (a ++ b) := by
  induction a using cut.induct with
  | case1 => exact (Nat.zero_add _).le
  | case2 a ih =>
      rw [List.cons_append, List.cons_append, holeCount_hole, holeCount_hole]
      omega
  | case3 c a hpair ih =>
      rw [holeCount_cons (not_begins_hole hpair), List.cons_append]
      by_cases hacross : c = '{' ∧ (a ++ b).head? = some '}'
      · obtain ⟨rfl, hhead⟩ := hacross
        obtain ⟨rest, hrest⟩ := List.head?_eq_some_iff.1 hhead
        have hbrace : holeCount ('}' :: rest) = holeCount rest :=
          holeCount_cons fun h => absurd h.1 (by decide)
        rw [hrest, hbrace] at ih
        rw [hrest, holeCount_hole]
        omega
      · rw [holeCount_cons hacross]
        exact ih

theorem holeCount_le_append (a b : List Char) : holeCount b ≤ holeCount (a ++ b) :=
  (Nat.le_add_left _ _).trans (holeCount_append_le a b)

theorem holeCount_intercalate_le (separator b : List Char) (times : Nat) :
    times * holeCount b ≤ holeCount (separator.intercalate (List.replicate times b)) := by
  induction times with
  | zero => simp
  | succ times ih =>
      cases times with
      | zero => rw [Nat.one_mul, List.replicate_one, List.intercalate_singleton]
      | succ times =>
          have hrest := holeCount_append_le separator
            (separator.intercalate (List.replicate (times + 1) b))
          have hboth := holeCount_append_le b
            (separator ++ separator.intercalate (List.replicate (times + 1) b))
          rw [intercalate_replicate_succ, Nat.succ_mul]
          omega

/-! ### Doubled quotes -/

/-- A text whose quotes are doubled. -/
def doubled (cs : List Char) : List Char := cs.flatMap fun c => if c = '\'' then [c, c] else [c]

theorem doubled_quote (cs : List Char) : doubled ('\'' :: cs) = '\'' :: '\'' :: doubled cs := rfl

theorem doubled_cons {c : Char} (hc : c ≠ '\'') (cs : List Char) :
    doubled (c :: cs) = c :: doubled cs := by
  rw [doubled, List.flatMap_cons, if_neg hc]
  rfl

/-- Doubled quotes make no hole and break none. -/
theorem holeCount_doubled (cs : List Char) : holeCount (doubled cs) = holeCount cs := by
  have hquote (cs : List Char) : holeCount ('\'' :: cs) = holeCount cs :=
    holeCount_cons fun h => absurd h.1 (by decide)
  induction cs using cut.induct with
  | case1 => rfl
  | case2 cs ih =>
      rw [doubled_cons (by decide), doubled_cons (by decide), holeCount_hole, holeCount_hole, ih]
  | case3 c cs hpair ih =>
      have hplain := not_begins_hole hpair
      by_cases hc : c = '\''
      · subst hc
        rw [doubled_quote, hquote, hquote, hquote, ih]
      · have hdoubled : ¬ (c = '{' ∧ (doubled cs).head? = some '}') := by
          rintro ⟨rfl, hhead⟩
          cases cs with
          | nil => cases hhead
          | cons next cs =>
              by_cases hnext : next = '\''
              · subst hnext
                cases hhead
              · rw [doubled_cons hnext] at hhead
                exact hplain ⟨rfl, hhead⟩
        rw [doubled_cons hc, holeCount_cons hdoubled, holeCount_cons hplain, ih]

/-- Whether no backslash in a text hides a quote or what follows the text; `hidden` if the first
character is hidden. -/
def hidesNoQuote (hidden : Bool) : List Char → Bool
  | [] => !hidden
  | c :: cs => !(hidden && c == '\'') && hidesNoQuote (!hidden && c == '\\') cs

section

variable {d : Dialect} {hidden : Bool} {cs : List Char}

/-- In a quotation, what does not end it only decides whether the next character is hidden. -/
theorem take?_quoted {quote c : Char} (hc : c ≠ closingQuote quote) :
    Mode.take? d (.quoted quote hidden) c = some (.quoted quote (!hidden && c == '\\')) := by
  simp [Mode.take?, step, hc]

/-- A text that hides no quote is read to its end as part of the quotation around it. -/
theorem take_doubled (hquotes : hidesNoQuote hidden cs = true) :
    (doubled cs).foldlM (Mode.take? d) (.quoted '\'' hidden) = some (.quoted '\'' false) := by
  induction cs generalizing hidden with
  | nil =>
      obtain rfl : hidden = false := by simpa [hidesNoQuote] using hquotes
      rfl
  | cons c cs ih =>
      rw [hidesNoQuote, Bool.and_eq_true] at hquotes
      by_cases hc : c = '\''
      · subst hc
        obtain rfl : hidden = false := by simpa using hquotes.1
        rw [doubled_quote]
        exact ih hquotes.2
      · rw [doubled_cons hc, List.foldlM_cons, take?_quoted hc]
        exact ih hquotes.2

/-! ### Astray -/

/-- Where the reader may stand once the quotation has ended too early: anywhere but in a quotation
by the quote that is doubled. -/
def Mode.isAstray : Mode → Bool
  | .quoted quote _ => opensQuote quote && quote != '\''
  | .closed quote => opensQuote quote
  | _ => true

theorem isAstray_plainStep {c : Char} (hc : c ≠ '\'') : (plainStep d c).2.isAstray = true := by
  grind [plainStep, Mode.isAstray]

/-- A character that is no quote leaves the reader astray. -/
theorem isAstray_advance {mode : Mode} (hastray : mode.isAstray = true) {c : Char} (hc : c ≠ '\'')
    (count : Nat) : (advance d (mode, count) c).1.isAstray = true := by
  have hplain := isAstray_plainStep (d := d) hc
  cases mode <;> grind [advance, step, Mode.isAstray]

/-- There are four quotes that begin a quotation. -/
theorem forall_opensQuote {p : Char → Prop} (hbacktick : p '`') (hbracket : p '[')
    (hsingle : p '\'') (hdouble : p '"') : ∀ quote, opensQuote quote = true → p quote := by
  intro quote hquote
  simp only [opensQuote, Bool.or_eq_true, beq_iff_eq] at hquote
  rcases hquote with ((rfl | rfl) | rfl) | rfl
  · exact hbacktick
  · exact hbracket
  · exact hsingle
  · exact hdouble

/-- A quote begins a quotation, where it does not belong to another one. -/
theorem advance_quote_of_isAstray {mode : Mode} (hastray : mode.isAstray = true) (count : Nat) :
    ∃ quote next, opensQuote quote = true ∧
      advance d (mode, count) '\'' = (.quoted quote false, next) := by
  have hmark : '\'' ≠ d.mark := by cases d <;> decide
  have hword : isWordChar '\'' = false := by decide
  have hbegins : beginsWord '\'' = false := by decide
  have hopens : opensQuote '\'' = true := rfl
  have hplain : plainStep d '\'' = ([.text '\''], .quoted '\'' false) := by
    rw [plainStep, if_neg hmark, if_pos hopens]
  cases mode with
  | quoted quote hidden =>
      rw [Mode.isAstray, Bool.and_eq_true, bne_iff_ne] at hastray
      have hclosing : '\'' ≠ closingQuote quote := by grind [closingQuote]
      exact ⟨quote, count, hastray.1, by simp [advance, step, hclosing]⟩
  | closed quote =>
      by_cases hquote : quote = '\''
      · subst hquote
        exact ⟨'\'', count, hopens, rfl⟩
      · exact ⟨'\'', count, hopens, by simp [advance, step, hplain, Ne.symm hquote]⟩
  | plain | word | mark | number =>
      simp [advance, step, hplain, hword, hbegins, hmark, hopens]

/-- Two of them leave the reader astray. -/
theorem isAstray_advance_quotes {mode : Mode} (hastray : mode.isAstray = true) (count : Nat) :
    ((['\'', '\''].foldl (advance d) (mode, count)).1).isAstray = true := by
  obtain ⟨quote, next, hopens, hfirst⟩ := advance_quote_of_isAstray (d := d) hastray count
  rw [List.foldl_cons, List.foldl_cons, List.foldl_nil, hfirst]
  by_cases hquote : quote = '\''
  · subst hquote
    rfl
  · have hclosing : '\'' ≠ closingQuote quote := by grind [closingQuote, opensQuote]
    simp [advance, step, hclosing, Mode.isAstray, hopens, hquote]

/-- Once astray, the reader stays so until the end of the text whose quotes are doubled. -/
theorem isAstray_foldl_doubled {mode : Mode} (hastray : mode.isAstray = true) (count : Nat) :
    (((doubled cs).foldl (advance d) (mode, count)).1).isAstray = true := by
  induction cs generalizing mode count with
  | nil => exact hastray
  | cons c cs ih =>
      by_cases hc : c = '\''
      · subst hc
        exact ih (isAstray_advance_quotes hastray count) _
      · rw [doubled_cons hc]
        exact ih (isAstray_advance hastray hc count) _

/-- Behind a text that hides a quote, what ought to end the quotation is the start of one. -/
theorem foldl_doubled_of_hidesNoQuote_eq_false (hquotes : hidesNoQuote hidden cs = false)
    (count : Nat) : ∃ quote next, opensQuote quote = true ∧
      (doubled cs ++ ['\'']).foldl (advance d) (.quoted '\'' hidden, count) =
        (.quoted quote false, next) := by
  induction cs generalizing hidden count with
  | nil =>
      obtain rfl : hidden = true := by simpa [hidesNoQuote] using hquotes
      exact ⟨'\'', count, rfl, rfl⟩
  | cons c cs ih =>
      rw [hidesNoQuote, Bool.and_eq_false_iff] at hquotes
      by_cases hc : c = '\''
      · subst hc
        rw [doubled_quote]
        cases hidden with
        | false =>
            have hrest : hidesNoQuote false cs = false := by simpa using hquotes
            exact ih hrest count
        | true =>
            -- The backslash hides the first of the two quotes, and the second ends the quotation.
            have hastray :
                ((doubled cs).foldl (advance d) (.closed '\'', count)).1.isAstray = true :=
              isAstray_foldl_doubled rfl count
            obtain ⟨quote, next, hopens, hend⟩ := advance_quote_of_isAstray (d := d) hastray
              ((doubled cs).foldl (advance d) (.closed '\'', count)).2
            refine ⟨quote, next, hopens, ?_⟩
            rw [← hend, List.foldl_append]
            rfl
      · have hrest : hidesNoQuote (!hidden && c == '\\') cs = false := by simpa [hc] using hquotes
        have hstep : advance d (.quoted '\'' hidden, count) c =
            (.quoted '\'' (!hidden && c == '\\'), count) := by
          simp [advance, step, closingQuote, hc]
        rw [doubled_cons hc, List.cons_append, List.foldl_cons, hstep]
        exact ih hrest count

end

/-! ### Languages in templates -/

/-- A language that can stand in quotes: there is no hole in it, and no backslash in it hides one of
its quotes or the quote behind it. -/
structure IsQuotable (language : String) : Prop where
  whole : holeCount language.toList = 0
  visible : hidesNoQuote false language.toList = true

section

variable {d : Dialect} {opening closing : List Char} {language : String}

/-- What stands before and behind a quoted language: it begins the quotation, ends it, and leaves
the reader outside. -/
structure Surrounds (d : Dialect) (opening closing : List Char) : Prop where
  openingWhole : IsWhole opening
  opens : opening.foldlM (Mode.take? d) .plain = some (.quoted '\'' false)
  closingWhole : IsWhole ('\'' :: closing)
  closes : ('\'' :: closing).foldlM (Mode.take? d) (.quoted '\'' false) = some .plain

/-- A language without a hole in it makes none with what surrounds it. -/
theorem Surrounds.isWhole (hsurrounds : Surrounds d opening closing)
    (hwhole : holeCount language.toList = 0) :
    IsWhole (opening ++ (doubled language.toList ++ '\'' :: closing)) := by
  have hinner : cut (doubled language.toList ++ '\'' :: closing) =
      [doubled language.toList ++ '\'' :: closing] :=
    cut_append (cut_of_holeCount ((holeCount_doubled _).trans hwhole)) hsurrounds.closingWhole.cut
      fun _ hhead => absurd (Option.some.inj hhead) (by decide)
  refine hsurrounds.openingWhole.append ⟨hinner, ?_⟩
  rw [List.getLast?_append, List.getLast?_cons, Option.some_or, ← List.getLast?_cons]
  exact hsurrounds.closingWhole.last

/-- A language that can stand in quotes is read as one piece with what surrounds it. -/
theorem Surrounds.clear (hsurrounds : Surrounds d opening closing)
    (hlanguage : IsQuotable language) :
    Clear d (opening ++ (doubled language.toList ++ '\'' :: closing)) where
  whole := hsurrounds.isWhole hlanguage.whole
  take := by
    rw [List.foldlM_append, hsurrounds.opens]
    show (doubled language.toList ++ '\'' :: closing).foldlM _ (Mode.quoted '\'' false) = _
    rw [List.foldlM_append, take_doubled hlanguage.visible]
    exact hsurrounds.closes

/-- A language that hides a quote puts the hole behind it into quotes, if what stands before the
hole does not end them. -/
theorem Surrounds.visible_of_outside (hsurrounds : Surrounds d opening closing)
    (hwhole : holeCount language.toList = 0)
    (hkeeps : ∀ quote, opensQuote quote = true → ∃ inner,
      closing.foldlM (Mode.take? d) (.quoted quote false) = some (.quoted inner false))
    {text : String} {rest : List Char} (htext : text.toList =
      opening ++ (doubled language.toList ++ '\'' :: closing) ++ '{' :: '}' :: rest)
    (houtside : ((textBefore d text 0).foldl (advance d) (.plain, 0)).1.isQuoted = false) :
    hidesNoQuote false language.toList = true := by
  by_contra hhides
  obtain ⟨quote, next, hopens, hastray⟩ :=
    foldl_doubled_of_hidesNoQuote_eq_false (d := d) (Bool.eq_false_iff.2 hhides) 0
  obtain ⟨inner, hinner⟩ := hkeeps quote hopens
  have hfirst : textBefore d text 0 = opening ++ (doubled language.toList ++ '\'' :: closing) := by
    rw [textBefore, htext, cut_append_hole (hsurrounds.isWhole hwhole).cut]
    rfl
  have hsplit : opening ++ (doubled language.toList ++ '\'' :: closing) =
      opening ++ ((doubled language.toList ++ ['\'']) ++ closing) := by
    rw [List.append_assoc, List.singleton_append]
  rw [hfirst, hsplit, List.foldl_append, foldl_of_take? hsurrounds.opens, List.foldl_append,
    hastray, foldl_of_take? hinner] at houtside
  cases houtside

/-- A template that begins with a quoted language and a hole takes its expressions exactly if the
language can stand in quotes, where the rest of it has no fewer holes than there are expressions
left. -/
theorem Surrounds.takes_iff (hsurrounds : Surrounds d opening closing)
    (hkeeps : ∀ quote, opensQuote quote = true → ∃ inner,
      closing.foldlM (Mode.take? d) (.quoted quote false) = some (.quoted inner false))
    {text : String} {rest : List Char} {count : Nat} (htext : text.toList =
      opening ++ (doubled language.toList ++ '\'' :: closing) ++ (hole.toList ++ rest))
    (hcount : count ≤ holeCount rest)
    (hblock : IsQuotable language → Block d text.toList (count + 1)) :
    Takes d text (count + 1) ↔ IsQuotable language := by
  refine ⟨fun htakes => ?_, fun hlanguage => (hblock hlanguage).takes⟩
  have hwhole : holeCount language.toList = 0 := by
    have hholes := htakes.holes
    have hfront := holeCount_append_le opening (doubled language.toList ++ '\'' :: closing)
    have hquoted := holeCount_append_le (doubled language.toList) ('\'' :: closing)
    have hrest := holeCount_append_le (opening ++ (doubled language.toList ++ '\'' :: closing))
      (hole.toList ++ rest)
    have hfirst : holeCount (hole.toList ++ rest) = holeCount rest + 1 := holeCount_hole rest
    rw [length_cut, htext] at hholes
    rw [holeCount_doubled] at hquoted
    omega
  exact ⟨hwhole,
    hsurrounds.visible_of_outside hwhole hkeeps htext (htakes.outside 0 (Nat.succ_pos count))⟩

end

end Template

theorem Target.toList_language (t : Target) :
    t.language.toList = Template.doubled t.registry.options.language.toList :=
  String.toList_ofList

end Listing.Sql

/-
# Needles in regular expressions

A document store is asked for a part of a text by a regular expression: the needle with a backslash
before every character that has a meaning, and an anchor where the part is pinned. What is read back
is the needle, character by character.

The anchor at the end also matches before a line feed that ends the text. An operator that asks for
the end is therefore met by more texts than it should be: by those that meet it once such a line
feed is dropped.
-/
import Listing.Document.Condition
import Listing.Proofs.LiteralPatterns

namespace Listing

/-- How an operator that looks for a part of a text compares characters. -/
def Operator.fold : Operator → Char → Char
  | .iexact | .icontains | .istartsWith | .iendsWith => Char.toLower
  | _ => id

namespace Text.Regex

variable {fold : Char → Char}

/-- A character with a meaning stands for itself after a backslash. -/
theorem read?_escaped {c : Char} (hc : isRegexMark c = true) (cs : List Char) :
    read? ('\\' :: c :: cs) = (read? cs).map (.char c :: ·) := by
  have hmarks : (['\\', '.', '+', '*', '?', '(', ')', '|', '[', ']', '{', '}', '^', '$'].all
      fun mark => !mark.isAlphanum) = true := by decide
  have hname : ¬c.isAlphanum = true := by
    simpa using List.all_eq_true.1 hmarks c (List.contains_iff_mem.1 hc)
  exact (if_pos rfl).trans (if_neg hname)

theorem read?_plain {c : Char} (hc : isRegexMark c = false) (cs : List Char) :
    read? (c :: cs) = (read? cs).map (.char c :: ·) := by
  have hmarks : c ∉ ['\\', '.', '+', '*', '?', '(', ')', '|', '[', ']', '{', '}', '^', '$'] := by
    rw [← List.contains_iff_mem]
    exact Bool.eq_false_iff.1 hc
  simp only [List.mem_cons, List.not_mem_nil, or_false, not_or] at hmarks
  cases cs <;> simp [read?, isSign, hmarks]

/-- An escaped text is read as its characters. -/
theorem read?_escapeRegex (needle : String) (rest : List Char) :
    read? ((escapeRegex needle).toList ++ rest) =
      (read? rest).map (needle.toList.map .char ++ ·) := by
  rw [escapeRegex, toList_escapeWith]
  apply read_flatMap
  intro c cs
  cases hc : isRegexMark c with
  | true => exact read?_escaped hc cs
  | false => exact read?_plain hc cs

/-- Characters one by one, with the end pinned or not, match a part that is the needle. -/
theorem matchesFrom_chars (stop first : Bool) (needle cs : List Char) :
    matchesFrom fold first (needle.map .char ++ if stop then [.stop] else []) cs = true ↔
      BeginsWith fold (fun rest => stop = true → rest = [] ∨ rest = ['\n']) needle cs := by
  induction needle generalizing first cs with
  | nil =>
      rw [List.map_nil, List.nil_append, beginsWith_nil]
      cases stop <;> simp [matchesFrom]
  | cons c needle ih =>
      cases cs with
      | nil => exact iff_of_false Bool.false_ne_true not_beginsWith_cons_nil
      | cons d cs =>
          rw [List.map_cons, List.cons_append, matchesFrom, Bool.and_eq_true, beq_iff_eq, ih,
            beginsWith_cons]

/-- Atoms match in a text where they match after something before them. -/
theorem matchesIn_iff (atoms : List Atom) (first : Bool) (cs : List Char) :
    matchesIn fold atoms first cs = true ↔
      ∃ front rest, cs = front ++ rest ∧
        matchesFrom fold (first && front.isEmpty) atoms rest = true := by
  induction cs generalizing first with
  | nil =>
      rw [matchesIn]
      constructor
      · intro hmatch
        exact ⟨[], [], rfl, by rwa [List.isEmpty_nil, Bool.and_true]⟩
      · rintro ⟨front, rest, hempty, hmatch⟩
        obtain ⟨rfl, rfl⟩ := List.append_eq_nil_iff.1 hempty.symm
        rwa [List.isEmpty_nil, Bool.and_true] at hmatch
  | cons c cs ih =>
      rw [matchesIn, Bool.or_eq_true, ih]
      constructor
      · rintro (hmatch | ⟨front, rest, rfl, hmatch⟩)
        · exact ⟨[], c :: cs, rfl, by rwa [List.isEmpty_nil, Bool.and_true]⟩
        · exact ⟨c :: front, rest, rfl, by rwa [List.isEmpty_cons, Bool.and_false]⟩
      · rintro ⟨front, rest, htext, hmatch⟩
        cases front with
        | nil =>
            left
            rwa [List.isEmpty_nil, Bool.and_true, ← List.nil_append rest, ← htext] at hmatch
        | cons c' front =>
            obtain ⟨rfl, rfl⟩ := List.cons.inj htext
            exact .inr ⟨front, rest, rfl, by rwa [List.isEmpty_cons, Bool.and_false] at hmatch⟩

/-- The atoms of the regular expression for a needle. -/
def anchored (start stop : Bool) (needle : List Char) : List Atom :=
  (if start then [.start] else []) ++ (needle.map .char ++ if stop then [.stop] else [])

theorem matchesIn_anchored (start stop : Bool) (needle cs : List Char) :
    matchesIn fold (anchored start stop needle) true cs = true ↔
      HasPart fold (fun front => start = true → front = [])
        (fun rest => stop = true → rest = [] ∨ rest = ['\n']) needle cs := by
  have hopen (front rest : List Char) :
      matchesFrom fold (true && front.isEmpty) (anchored start stop needle) rest = true ↔
        (start = true → front = []) ∧
          BeginsWith fold (fun rest => stop = true → rest = [] ∨ rest = ['\n']) needle rest := by
    rw [← matchesFrom_chars stop front.isEmpty]
    cases start with
    | true => simp [anchored, matchesFrom]
    | false => simp [anchored]
  simp only [matchesIn_iff, hopen, HasPart]

theorem read?_regexOf {op : Operator} (hop : op ∈ Operator.forParts) (needle : String) :
    read? (Document.regexOf op needle).1.toList =
      some (anchored op.pinsStart op.pinsEnd needle.toList) := by
  have hpattern : (Document.regexOf op needle).1.toList =
      (if op.pinsStart then ['^'] else []) ++ ((escapeRegex needle).toList ++
        if op.pinsEnd then ['$'] else []) := by
    simp only [Operator.forParts, List.mem_cons, List.not_mem_nil, or_false] at hop
    rcases hop with rfl | rfl | rfl | rfl | rfl | rfl <;>
      simp [Document.regexOf, Operator.pinsStart, Operator.pinsEnd, String.toList_append]
  have hend : read? (if op.pinsEnd then ['$'] else []) =
      some (if op.pinsEnd then [.stop] else []) := by
    cases op.pinsEnd <;> rfl
  have hneedle : read? ((escapeRegex needle).toList ++ if op.pinsEnd then ['$'] else []) =
      some (needle.toList.map .char ++ if op.pinsEnd then [.stop] else []) := by
    rw [read?_escapeRegex, hend, Option.map_some]
  rw [hpattern]
  cases hstart : op.pinsStart with
  | true =>
      have hanchor (cs : List Char) : read? ('^' :: cs) = (read? cs).map (.start :: ·) := by
        cases cs <;> rfl
      rw [if_pos rfl, List.singleton_append, hanchor, hneedle]
      rfl
  | false =>
      rw [if_neg Bool.false_ne_true, List.nil_append, hneedle]
      rfl

theorem foldOf?_regexOf {op : Operator} (hop : op ∈ Operator.forParts) (needle : String) :
    foldOf? (Document.regexOf op needle).2 = some op.fold := by
  simp only [Operator.forParts, List.mem_cons, List.not_mem_nil, or_false] at hop
  rcases hop with rfl | rfl | rfl | rfl | rfl | rfl <;> rfl

/-- The regular expression for a needle matches the texts with a part that is the needle; where the
part has to stand at the end, a line feed may follow it. -/
theorem accepts_regexOf {op : Operator} (hop : op ∈ Operator.forParts) (needle text : String) :
    accepts (Document.regexOf op needle).1 (Document.regexOf op needle).2 text = true ↔
      HasPart op.fold (fun front => op.pinsStart = true → front = [])
        (fun rest => op.pinsEnd = true → rest = [] ∨ rest = ['\n']) needle.toList text.toList := by
  rw [accepts, foldOf?_regexOf hop, read?_regexOf hop]
  exact matchesIn_anchored ..

/-- Where the end is left open, the texts matched are those that have what the operator asks for. -/
theorem accepts_regexOf_of_open {op : Operator} (hop : op ∈ Operator.forParts)
    (hopen : op.pinsEnd = false) (needle text : String) :
    accepts (Document.regexOf op needle).1 (Document.regexOf op needle).2 text = true ↔
      op.Finds op.fold needle text := by
  rw [accepts_regexOf hop, Operator.finds_iff_hasPart hop]
  simp [hopen]

end Text.Regex

namespace Document

/-- The regular expression for a needle matches the texts that have what the operator asks for and,
if the operator asks for the end of a text, those that have it before a line feed that ends them. -/
theorem regexOf_finds_iff {op : Operator} (hop : op ∈ Operator.forParts)
    (needle text : String) :
    Text.Regex.accepts (regexOf op needle).1 (regexOf op needle).2 text = true ↔
      op.Finds op.fold needle text ∨ op.pinsEnd = true ∧
        ∃ line : String, text = line ++ "\n" ∧ op.Finds op.fold needle line := by
  rw [Text.Regex.accepts_regexOf hop]
  simp only [Operator.finds_iff_hasPart hop]
  constructor
  · rintro ⟨front, _, htext, hfront, part, rest, rfl, hpart, hrest⟩
    by_cases hpin : op.pinsEnd = true
    · rcases hrest hpin with rfl | rfl
      · exact .inl ⟨front, part ++ [], htext, hfront, part, [], rfl, hpart, fun _ => rfl⟩
      · refine .inr ⟨hpin, String.ofList (front ++ part), ?_, front, part, ?_, hfront, part, [],
          (List.append_nil part).symm, hpart, fun _ => rfl⟩
        · rw [← String.toList_inj, htext, String.toList_append, String.toList_ofList,
            List.append_assoc]
          rfl
        · rw [String.toList_ofList]
    · exact .inl ⟨front, part ++ rest, htext, hfront, part, rest, rfl, hpart,
        fun hstop => absurd hstop hpin⟩
  · rintro (⟨front, behind, htext, hfront, part, rest, hbehind, hpart, hrest⟩ |
      ⟨hpin, line, rfl, front, _, hline, hfront, part, rest, rfl, hpart, hrest⟩)
    · exact ⟨front, behind, htext, hfront, part, rest, hbehind, hpart,
        fun hpin => .inl (hrest hpin)⟩
    · rw [hrest hpin, List.append_nil] at hline
      refine ⟨front, part ++ ['\n'], ?_, hfront, part, ['\n'], rfl, hpart, fun _ => .inr rfl⟩
      rw [String.toList_append, hline, List.append_assoc]
      rfl

/-- Every sign of the needle stands for itself, and case does not count. -/
theorem regexOf_finds_iff_dotted :
    Text.Regex.accepts (regexOf .iexact "(a.b)").1 (regexOf .iexact "(a.b)").2 "(A.B)" = true ∧
      Text.Regex.accepts (regexOf .istartsWith "a.b").1 (regexOf .istartsWith "a.b").2 "AxB" =
        false := by
  have hexactPart : Operator.iexact ∈ Operator.forParts := by decide
  have hstartPart : Operator.istartsWith ∈ Operator.forParts := by decide
  have hexact := regexOf_finds_iff hexactPart "(a.b)" "(A.B)"
  have hstart := regexOf_finds_iff hstartPart "a.b" "AxB"
  refine ⟨hexact.2 (.inl (by decide)), ?_⟩
  rw [Bool.eq_false_iff, Ne, hstart]
  rintro (hstarts | ⟨hend, -⟩)
  · exact absurd hstarts (by decide)
  · cases hend

namespace Products

/-- Products with a name. -/
def resource : Resource where
  name := "product"
  storage := "products"
  attributes := [{ name := "name", kind := .string }]

def target : Target where
  functions := []
  registry := { entries := [⟨resource, .documentWith []⟩] }
  resource := resource

/-- The name ends with a text. -/
def nameEndsWith (text : String) : Comparison where
  param := "name__endswith"
  path := ⟨[], "name"⟩
  operator := .endsWith
  function := none
  value := .string text

/-- A product whose name has a line feed after the text is found, though its name does not end with
the text. -/
theorem nameEndsWith_before_line_feed :
    target.comparison Joins.defaultStem (nameEndsWith "ab") =
      .ok (.field "name" (.regex "ab$" "")) ∧
    Text.Regex.accepts "ab$" "" "ab\n" = true ∧ ¬Operator.endsWith.Finds id "ab" "ab\n" :=
  ⟨rfl, by decide, by decide⟩

end Products
end Document
end Listing

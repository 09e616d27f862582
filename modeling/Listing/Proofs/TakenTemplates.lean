/-
# Templates that take their expressions

Every template that a query is made of takes the expressions that it is given: the rank of groups
for any number of parents and metrics, the tests that only some dialects have, and the searches of
text for any number of columns and words. On Postgres the language is quoted in a search, which
takes its expressions exactly if the language can stand in quotes.
-/
import Listing.Proofs.SearchLanguage
import Listing.Sql.Totals

namespace Listing.Sql

open Template

/-- A template takes the expressions that it is given. Nothing is said of the templates in them, and
of what is no template. -/
def Expr.TakesArguments (d : Dialect) : Expr → Prop
  | .template text arguments => Takes d text arguments.length
  | _ => True

namespace Template

/-! ### Pieces of templates -/

theorem toList_intercalate_map {α : Type} (separator unit : String) (items : List α) :
    (separator.intercalate (items.map fun _ => unit)).toList =
      separator.toList.intercalate (List.replicate items.length unit.toList) := by
  rw [String.toList_intercalate, List.map_map]
  exact congrArg _ (List.map_const' (l := items) (b := unit.toList))

/-- What ends each of several texts may be taken for the start of what stands between them. -/
theorem intercalate_replicate_append (separator unit ending : List Char) (times : Nat) :
    separator.intercalate (List.replicate (times + 1) (unit ++ ending)) =
      (ending ++ separator).intercalate (List.replicate (times + 1) unit) ++ ending := by
  induction times with
  | zero => simp
  | succ times ih =>
      rw [intercalate_replicate_succ, intercalate_replicate_succ, ih]
      simp only [List.append_assoc]

theorem clear_comma (d : Dialect) : Clear d ", ".toList := ⟨⟨rfl, by decide⟩, by cases d <;> rfl⟩

theorem isSeparated_comma (d : Dialect) : IsSeparated d ", ".toList :=
  .cons (by cases d <;> decide) _

/-- Holes with commas between them. -/
theorem Block.holes {α : Type} (d : Dialect) (items : List α) :
    Block d (Sql.holes ", " items).toList items.length := by
  have hblock := Block.intercalate (clear_comma d) (isSeparated_comma d) (List.cons_ne_nil _ _)
    (.hole d) items.length
  rwa [Nat.mul_one, ← toList_intercalate_map] at hblock

/-- A text that follows a hole. -/
theorem Block.hole_append {d : Dialect} {b : List Char} {n : Nat} (hb : Block d b n)
    (hseparated : IsSeparated d b) : Block d (Sql.hole.toList ++ b) (n + 1) :=
  Nat.add_comm .. ▸ (Block.hole d).append hb hseparated

end Template

/-! ### Ranks and tests -/

/-- A text between two holes takes two expressions. -/
theorem takes_between {d : Dialect} (text : String) (hclear : Clear d text.toList)
    (hseparated : IsSeparated d text.toList) (hnonempty : text.toList ≠ []) :
    Takes d (hole ++ text ++ hole) 2 := by
  refine Block.takes ?_
  rw [String.toList_append, String.toList_append, List.append_assoc]
  exact (Block.prepend hclear (.hole d)).hole_append (hseparated.append hnonempty _)

/-- The order of ranks takes the metrics. -/
theorem block_rankOrder (d : Dialect) (metrics : List Labelled) :
    Block d ("ORDER BY ".toList ++ ((", ".intercalate
      (metrics.map fun _ => hole ++ " DESC")).toList ++ ")".toList)) metrics.length := by
  have horder : Clear d "ORDER BY ".toList := ⟨⟨rfl, by decide⟩, by cases d <;> rfl⟩
  rw [toList_intercalate_map]
  cases metrics with
  | nil => exact .prepend horder (.text ⟨⟨rfl, by decide⟩, by cases d <;> rfl⟩)
  | cons m metrics =>
      -- A word ends only at what follows it, so `DESC` belongs to the comma or bracket behind it.
      have hbetween : Clear d (" DESC".toList ++ ", ".toList) :=
        ⟨⟨rfl, by decide⟩, by cases d <;> rfl⟩
      have hend : Clear d (" DESC".toList ++ ")".toList) := ⟨⟨rfl, by decide⟩, by cases d <;> rfl⟩
      have hseparated (rest : List Char) : IsSeparated d (" DESC".toList ++ rest) :=
        .cons (by cases d <;> decide) _
      have hholes := Block.intercalate hbetween (hseparated _) (List.cons_ne_nil _ _) (.hole d)
        (m :: metrics).length
      rw [List.length_cons, String.toList_append, intercalate_replicate_append, List.append_assoc]
      rw [Nat.mul_one] at hholes
      exact .prepend horder (hholes.append (.text hend) (hseparated _))

/-- The rank of a group takes its parents and its metrics. -/
theorem takesArguments_rankExpr (d : Dialect) (parents metrics : List Labelled) :
    (rankExpr parents metrics).TakesArguments d := by
  have hstart : Clear d "ROW_NUMBER() OVER (".toList := ⟨⟨rfl, by decide⟩, by cases d <;> rfl⟩
  have hpartition : Clear d "PARTITION BY ".toList := ⟨⟨rfl, by decide⟩, by cases d <;> rfl⟩
  have hspace : Clear d " ".toList := ⟨⟨rfl, by decide⟩, by cases d <;> rfl⟩
  have hseparated (rest : List Char) : IsSeparated d (" ".toList ++ rest) :=
    .cons (by cases d <;> decide) _
  have horder := block_rankOrder d metrics
  refine Block.takes ?_
  rw [List.length_append, List.length_map, List.length_map]
  cases parents with
  | nil =>
      have hblock := horder.prepend hstart
      simpa only [String.toList_append, List.append_assoc, List.isEmpty_nil, if_true,
        String.append_empty, List.length_nil, Nat.zero_add] using hblock
  | cons parent parents =>
      have hblock := (((Block.holes d (parent :: parents)).append (horder.prepend hspace)
        (hseparated _)).prepend hpartition).prepend hstart
      simpa only [String.toList_append, List.append_assoc, List.isEmpty_cons, Bool.false_eq_true,
        if_false] using hblock

/-- There are three parts of a date. -/
theorem datePartNames_mem (op : Operator) :
    datePartNames op ∈ [("YEAR", "%Y"), ("MONTH", "%m"), ("DAY", "%d")] := by
  unfold datePartNames
  split <;> decide

/-- A part of a date takes the date. -/
theorem takesArguments_datePart (d : Dialect) (op : Operator) (e : Expr) :
    (datePart d op e).TakesArguments d := by
  have hend : Clear d ") AS INTEGER)".toList := ⟨⟨rfl, by decide⟩, by cases d <;> rfl⟩
  have hseparated : IsSeparated d ") AS INTEGER)".toList := .cons (by cases d <;> decide) _
  have hhole := (Block.text hend).hole_append hseparated
  cases d with
  | mysql => trivial
  | postgres =>
      have hstart : ∀ names ∈ [("YEAR", "%Y"), ("MONTH", "%m"), ("DAY", "%d")],
          Clear .postgres ("CAST(EXTRACT(" ++ names.1 ++ " FROM ").toList := by
        simp only [List.forall_mem_cons]
        exact ⟨⟨⟨rfl, by decide⟩, rfl⟩, ⟨⟨rfl, by decide⟩, rfl⟩, ⟨⟨rfl, by decide⟩, rfl⟩, nofun⟩
      refine Block.takes ?_
      rw [String.toList_append, String.toList_append, List.append_assoc]
      exact hhole.prepend (hstart _ (datePartNames_mem op))
  | sqlite =>
      have hstart : ∀ names ∈ [("YEAR", "%Y"), ("MONTH", "%m"), ("DAY", "%d")],
          Clear .sqlite ("CAST(strftime('" ++ names.2 ++ "', ").toList := by
        simp only [List.forall_mem_cons]
        exact ⟨⟨⟨rfl, by decide⟩, rfl⟩, ⟨⟨rfl, by decide⟩, rfl⟩, ⟨⟨rfl, by decide⟩, rfl⟩, nofun⟩
      refine Block.takes ?_
      rw [String.toList_append, String.toList_append, List.append_assoc]
      exact hhole.prepend (hstart _ (datePartNames_mem op))

/-- A match with the start or the end of a text takes the text and its pattern. -/
theorem takesArguments_affixTest (d : Dialect) (op : Operator) (e : Expr) (needle : String) :
    (affixTest d op e needle).TakesArguments d := by
  have hseparated (rest : List Char) : IsSeparated d (' ' :: rest) :=
    .cons (by cases d <;> decide) _
  cases d with
  | postgres => trivial
  | sqlite => exact takes_between _ ⟨⟨rfl, by decide⟩, rfl⟩ (hseparated _) (List.cons_ne_nil _ _)
  | mysql => exact takes_between _ ⟨⟨rfl, by decide⟩, rfl⟩ (hseparated _) (List.cons_ne_nil _ _)

/-- Containment in a document takes the document and an item, for each item. -/
theorem takesArguments_documentTest (e : Expr) (items : List Scalar) :
    (documentTest e items).TakesArguments .postgres := by
  have hbetween : Clear .postgres " @> ".toList := ⟨⟨rfl, by decide⟩, rfl⟩
  have hand : Clear .postgres " AND ".toList := ⟨⟨rfl, by decide⟩, rfl⟩
  have hseparated (rest : List Char) : IsSeparated .postgres (' ' :: rest) := .cons (by decide) rest
  have hunit : Block .postgres (hole ++ " @> " ++ hole).toList 2 := by
    rw [String.toList_append, String.toList_append, List.append_assoc]
    exact (Block.prepend hbetween (.hole _)).hole_append (hseparated _)
  have hcount : (items.flatMap fun item => [e, Expr.scalar item]).length = items.length * 2 := by
    simp [List.length_flatMap, List.map_const']
  refine Block.takes ?_
  rw [hcount, toList_intercalate_map]
  exact .intercalate hand (hseparated _) (List.cons_ne_nil _ _) hunit items.length

/-- A test that only Postgres has takes what it tests and its operand. -/
theorem takesArguments_postgresTest? {op : Operator} {kind : Kind} {e test : Expr}
    {operand : Operand} (htest : postgresTest? op kind e operand = some test) :
    test.TakesArguments .postgres := by
  have hseparated (rest : List Char) : IsSeparated .postgres (' ' :: rest) := .cons (by decide) rest
  have harray {operator : String} (hclear : Clear .postgres (" " ++ operator ++ " ").toList)
      (items : List Scalar) : (arrayTest operator e items).TakesArguments .postgres := by
    have hspaced : IsSeparated .postgres (" " ++ operator ++ " ").toList := by
      rw [String.append_assoc, String.toList_append]
      exact hseparated _
    have htakes := takes_between _ hclear hspaced (by simp)
    rwa [← String.append_assoc, ← String.append_assoc] at htakes
  unfold postgresTest? at htest
  cases op
  case contains =>
    dsimp only at htest
    split at htest
    · cases htest
      exact harray ⟨⟨rfl, by decide⟩, rfl⟩ _
    · cases htest
      exact takesArguments_documentTest e _
  case overlap | hasAll | hasAny =>
    cases htest
    exact harray ⟨⟨rfl, by decide⟩, rfl⟩ _
  case hasKey =>
    cases htest
    exact takes_between " ? " ⟨⟨rfl, by decide⟩, rfl⟩ (hseparated _)
      (List.cons_ne_nil _ _)
  all_goals cases htest

/-! ### Searches -/

section

variable {t : Target}

/-- A search on MySQL takes its columns and what is searched for in them. -/
theorem takes_match {columns ending : String} {count : Nat}
    (hcolumns : Block .mysql columns.toList count) (hend : Clear .mysql ending.toList)
    (hseparated : IsSeparated .mysql ending.toList) :
    Takes .mysql ("MATCH (" ++ columns ++ ") AGAINST (" ++ hole ++ ending) (count + 1) := by
  have hstart : Clear .mysql "MATCH (".toList := ⟨⟨rfl, by decide⟩, rfl⟩
  have hagainst : Clear .mysql ") AGAINST (".toList := ⟨⟨rfl, by decide⟩, rfl⟩
  have hsearched := ((Block.text hend).hole_append hseparated).prepend hagainst
  have hblock := (hcolumns.append hsearched (.cons (by decide) _)).prepend hstart
  refine Block.takes ?_
  simpa only [String.toList_append, List.append_assoc, Nat.zero_add] using hblock

/-- A search on Postgres takes a column and what is searched for in it exactly if the language can
stand in quotes. -/
theorem takes_vector_iff : Takes .postgres ("to_tsvector('" ++ t.language ++ "', CAST(" ++ hole ++
      " AS TEXT)) @@ plainto_tsquery('" ++ t.language ++ "', " ++ hole ++ ")") 2 ↔
    IsQuotable t.registry.options.language := by
  have hfirst : Surrounds .postgres "to_tsvector('".toList ", CAST(".toList :=
    ⟨⟨rfl, by decide⟩, rfl, ⟨rfl, by decide⟩, rfl⟩
  have hkeeps : ∀ quote, opensQuote quote = true → ∃ inner,
      ", CAST(".toList.foldlM (Mode.take? .postgres) (.quoted quote false) =
        some (.quoted inner false) :=
    forall_opensQuote ⟨_, rfl⟩ ⟨_, rfl⟩ ⟨_, rfl⟩ ⟨_, rfl⟩
  have hsecond : Surrounds .postgres " AS TEXT)) @@ plainto_tsquery('".toList ", ".toList :=
    ⟨⟨rfl, by decide⟩, rfl, ⟨rfl, by decide⟩, rfl⟩
  have hend : Clear .postgres ")".toList := ⟨⟨rfl, by decide⟩, rfl⟩
  have hlast := (Block.text hend).hole_append (.cons (by decide) _)
  have htext : ("to_tsvector('" ++ t.language ++ "', CAST(" ++ hole ++
      " AS TEXT)) @@ plainto_tsquery('" ++ t.language ++ "', " ++ hole ++ ")").toList =
      "to_tsvector('".toList ++ (doubled t.registry.options.language.toList ++
        '\'' :: ", CAST(".toList) ++ (hole.toList ++ (" AS TEXT)) @@ plainto_tsquery('".toList ++
          (doubled t.registry.options.language.toList ++ '\'' :: ", ".toList) ++
            (hole.toList ++ ")".toList))) := by
    simp only [String.toList_append, List.append_assoc, t.toList_language]
    rfl
  refine hfirst.takes_iff hkeeps htext ?_ fun hlanguage => ?_
  · exact holeCount_le_append _ (hole.toList ++ ")".toList)
  · rw [htext]
    exact ((hlast.prepend (hsecond.clear hlanguage)).hole_append
      (.cons (by decide) _)).prepend (hfirst.clear hlanguage)

/-- The first of several holes. -/
theorem holes_cons {α : Type} (item : α) (items : List α) : ∃ rest,
    (holes ", " (item :: items)).toList = hole.toList ++ rest ∧
      items.length ≤ holeCount rest := by
  have hcount := holeCount_intercalate_le ", ".toList hole.toList (item :: items).length
  have hone : holeCount hole.toList = 1 := rfl
  rw [← toList_intercalate_map, hone, Nat.mul_one, List.length_cons] at hcount
  obtain ⟨rest, hrest⟩ : ∃ rest, (holes ", " (item :: items)).toList = hole.toList ++ rest := by
    rw [holes, toList_intercalate_map, List.length_cons, List.replicate_succ]
    cases items with
    | nil => exact ⟨[], rfl⟩
    | cons next items =>
        rw [List.length_cons, List.replicate_succ, List.intercalate_cons_cons, List.append_assoc]
        exact ⟨_, rfl⟩
  have hfirst : holeCount (hole.toList ++ rest) = holeCount rest + 1 := holeCount_hole rest
  change _ ≤ holeCount (holes ", " (item :: items)).toList at hcount
  rw [hrest, hfirst] at hcount
  exact ⟨rest, hrest, Nat.le_of_succ_le_succ hcount⟩

/-- The words of a full-text search on Postgres. -/
def wordQueries (t : Target) (words : List String) : String :=
  " || ".intercalate (words.map fun _ => "plainto_tsquery('" ++ t.language ++ "', " ++ hole ++ ")")

theorem toList_wordQuery (t : Target) :
    ("plainto_tsquery('" ++ t.language ++ "', " ++ hole ++ ")").toList =
      "plainto_tsquery('".toList ++ (doubled t.registry.options.language.toList ++
        '\'' :: ", ".toList) ++ (hole.toList ++ ")".toList) := by
  simp only [String.toList_append, List.append_assoc, t.toList_language]
  rfl

theorem length_le_wordQueries (words : List String) :
    words.length ≤ holeCount (wordQueries t words).toList := by
  have hunit :
      1 ≤ holeCount ("plainto_tsquery('" ++ t.language ++ "', " ++ hole ++ ")").toList := by
    rw [toList_wordQuery]
    exact holeCount_le_append _ (hole.toList ++ ")".toList)
  have hwords := holeCount_intercalate_le " || ".toList
    ("plainto_tsquery('" ++ t.language ++ "', " ++ hole ++ ")").toList words.length
  rw [wordQueries, toList_intercalate_map]
  exact (Nat.le_mul_of_pos_right _ hunit).trans hwords

theorem block_wordQueries (hlanguage : IsQuotable t.registry.options.language)
    (words : List String) : Block .postgres (wordQueries t words).toList words.length := by
  have hquery : Surrounds .postgres "plainto_tsquery('".toList ", ".toList :=
    ⟨⟨rfl, by decide⟩, rfl, ⟨rfl, by decide⟩, rfl⟩
  have hend : Clear .postgres ")".toList := ⟨⟨rfl, by decide⟩, rfl⟩
  have hor : Clear .postgres " || ".toList := ⟨⟨rfl, by decide⟩, rfl⟩
  have hunit := ((Block.text hend).hole_append (.cons (by decide) _)).prepend
    (hquery.clear hlanguage)
  have hwords := Block.intercalate hor (.cons (by decide) _) (List.cons_ne_nil _ _) hunit
    words.length
  rw [wordQueries, toList_intercalate_map, toList_wordQuery]
  rwa [Nat.zero_add, Nat.mul_one] at hwords

/-- A full-text search on Postgres. -/
def vectorMatch (t : Target) (columns : List Expr) (words : List String) : String :=
  "to_tsvector('" ++ t.language ++ "', concat_ws(' ', " ++ holes ", " columns ++ ")) @@ (" ++
    wordQueries t words ++ ")"

theorem toList_vectorMatch (columns : List Expr) (words : List String) :
    (vectorMatch t columns words).toList =
      "to_tsvector('".toList ++ (doubled t.registry.options.language.toList ++
        '\'' :: ", concat_ws(' ', ".toList) ++ ((holes ", " columns).toList ++
          (")) @@ (".toList ++ ((wordQueries t words).toList ++ ")".toList))) := by
  unfold vectorMatch
  simp only [String.toList_append, List.append_assoc, t.toList_language]
  rfl

theorem surrounds_vectorMatch :
    Surrounds .postgres "to_tsvector('".toList ", concat_ws(' ', ".toList :=
  ⟨⟨rfl, by decide⟩, rfl, ⟨rfl, by decide⟩, rfl⟩

theorem block_vectorMatch (hlanguage : IsQuotable t.registry.options.language)
    (columns : List Expr) (words : List String) :
    Block .postgres (vectorMatch t columns words).toList (columns.length + words.length) := by
  have hmatch : Clear .postgres ")) @@ (".toList := ⟨⟨rfl, by decide⟩, rfl⟩
  have hend : Clear .postgres ")".toList := ⟨⟨rfl, by decide⟩, rfl⟩
  have hbracket (rest : List Char) : IsSeparated .postgres (')' :: rest) := .cons (by decide) rest
  have hwords := (block_wordQueries hlanguage words).append (.text hend) (hbracket _)
  rw [toList_vectorMatch]
  exact ((Block.holes .postgres columns).append (hwords.prepend hmatch) (hbracket _)).prepend
    (surrounds_vectorMatch.clear hlanguage)

/-- A full-text search on Postgres takes its columns and its words exactly if the language can stand
in quotes. -/
theorem takes_vectorMatch_iff {columns : List Expr} (hcolumns : columns ≠ [])
    (words : List String) :
    Takes .postgres (vectorMatch t columns words) (columns.length + words.length) ↔
      IsQuotable t.registry.options.language := by
  have hkeeps : ∀ quote, opensQuote quote = true → ∃ inner,
      ", concat_ws(' ', ".toList.foldlM (Mode.take? .postgres) (.quoted quote false) =
        some (.quoted inner false) :=
    forall_opensQuote ⟨_, rfl⟩ ⟨_, rfl⟩ ⟨_, rfl⟩ ⟨_, rfl⟩
  obtain ⟨column, others, rfl⟩ := List.exists_cons_of_ne_nil hcolumns
  obtain ⟨later, hholes, hothers⟩ := holes_cons column others
  have htext := toList_vectorMatch (t := t) (column :: others) words
  rw [hholes, List.append_assoc hole.toList] at htext
  have hcount : (column :: others).length + words.length = others.length + words.length + 1 :=
    Nat.succ_add ..
  rw [hcount]
  refine surrounds_vectorMatch.takes_iff hkeeps htext ?_ fun hlanguage =>
    hcount ▸ block_vectorMatch hlanguage (column :: others) words
  have hwords := length_le_wordQueries (t := t) words
  have hmatched := holeCount_append_le (wordQueries t words).toList ")".toList
  have hbehind := holeCount_le_append ")) @@ (".toList ((wordQueries t words).toList ++ ")".toList)
  have hall := holeCount_append_le later
    (")) @@ (".toList ++ ((wordQueries t words).toList ++ ")".toList))
  omega

/-- A search in one column takes the column and its operand: on Postgres, if the language can stand
in quotes. -/
theorem takesArguments_searchTest_iff {param : String} {e test : Expr} {s : Scalar}
    (htest : t.searchTest param e s = .ok test) : test.TakesArguments t.dialect ↔
      (t.dialect = .postgres → IsQuotable t.registry.options.language) := by
  unfold Target.searchTest at htest
  cases hd : t.dialect with
  | sqlite => simp [hd] at htest
  | mysql =>
      simp only [hd, Except.ok.injEq] at htest
      subst htest
      refine iff_of_true ?_ nofun
      exact takes_match (.hole _) ⟨⟨rfl, by decide⟩, rfl⟩ (.cons (by decide) _)
  | postgres =>
      simp only [hd, Except.ok.injEq] at htest
      subst htest
      exact takes_vector_iff.trans ⟨fun hlanguage _ => hlanguage, fun hlanguage => hlanguage rfl⟩

end

end Listing.Sql

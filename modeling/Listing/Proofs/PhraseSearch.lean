/-
# Search for a phrase

A phrase is searched word by word: every word, or at least one, has to occur in at least one of the
searched attributes, whatever its case. A relational store without text search asks this of columns
by LIKE, and a document store of fields by regular expressions.

Both ask for the same, as far as phrase and texts are of ASCII: of other characters the stores do
not know the same case. A phrase has at least one word, since it begins with a character that is not
blank.
-/
import Listing.Proofs.Refusal
import Listing.Proofs.RegularExpressions
import Listing.Proofs.Semantics.DocumentFilter
import Listing.Proofs.Support.Trimming
import Listing.Proofs.UpperCase
import Listing.Validation

namespace Listing

namespace Text

/-- Every character is one of ASCII. -/
def IsAscii (s : String) : Prop := ∀ c ∈ s.toList, c.toNat < 128

instance (s : String) : Decidable (IsAscii s) :=
  decidable_of_iff (s.toList.all (·.toNat < 128) = true) (by simp [IsAscii])

theorem IsAscii.upper_eq {s : String} (hs : IsAscii s) : upper s = s.toUpper :=
  upper_eq_toUpper fun c hc hbeyond => absurd (hs c hc) (by omega)

theorem IsAscii.escapeWith {s : String} (hs : IsAscii s) (special : Char → Bool) :
    IsAscii (escapeWith special s) := by
  intro c hc
  rw [toList_escapeWith] at hc
  obtain ⟨d, hd, hc⟩ := List.mem_flatMap.1 hc
  split at hc
  · rcases List.mem_cons.1 hc with rfl | hc
    · decide
    · exact List.mem_singleton.1 hc ▸ hs d hd
  · exact List.mem_singleton.1 hc ▸ hs d hd

/-- A sign is the upper case of itself only. -/
theorem toUpper_eq_iff {c sign : Char} (hsign : sign.isAlpha = false) :
    c.toUpper = sign ↔ c = sign := by
  have hfixed {d : Char} (hd : d.isAlpha = false) : d.toUpper = d :=
    Char.toUpper_eq_of_not_isLower (Bool.eq_false_iff.1 (Bool.or_eq_false_iff.1 hd).2)
  constructor
  · rintro rfl
    have hc : c.isAlpha = false := by
      rw [← Char.isUpper_toUpper_eq_isAlpha]
      exact (Bool.or_eq_false_iff.1 hsign).1
    exact (hfixed hc).symm
  · rintro rfl
    exact hfixed hsign

theorem escapeLike_toUpper (s : String) : (escapeLike s).toUpper = escapeLike s.toUpper := by
  rw [← String.toList_inj, String.toUpper, String.toList_map, escapeLike, escapeLike,
    toList_escapeWith, toList_escapeWith, String.toUpper, String.toList_map, List.map_flatMap,
    List.flatMap_map]
  apply List.flatMap_congr
  intro c _
  have hsame (sign : Char) (hsign : sign.isAlpha = false) :
      (c.toUpper == sign) = (c == sign) := by
    rw [Bool.eq_iff_iff, beq_iff_eq, beq_iff_eq, toUpper_eq_iff hsign]
  simp only [hsame '\\' rfl, hsame '%' rfl, hsame '_' rfl]
  split <;> rfl

/-- The pieces of a text are made of its characters, except for those cut at. -/
theorem flatten_splitWhere (cut : Char → Bool) (cs : List Char) :
    (splitWhere cut cs).flatten = cs.filter (! cut ·) := by
  have hgrow (c : Char) (pieces : List (List Char)) :
      (growFirst c pieces).flatten = c :: pieces.flatten := by
    cases pieces <;> rfl
  induction cs with
  | nil => rfl
  | cons c cs ih =>
      rw [splitWhere]
      cases hc : cut c with
      | true => simp [ih, hc]
      | false => simp [hgrow, ih, hc]

theorem IsAscii.words {s word : String} (hs : IsAscii s) (hword : word ∈ words s) :
    IsAscii word := by
  obtain ⟨piece, hpiece, rfl⟩ := List.mem_map.1 hword
  intro c hc
  rw [String.toList_ofList] at hc
  have hpieces : c ∈ (splitWhere isBlank s.toList).flatten :=
    List.mem_flatten.2 ⟨piece, (List.mem_filter.1 hpiece).1, hc⟩
  rw [flatten_splitWhere] at hpieces
  exact hs c (List.mem_filter.1 hpieces).1

/-- A text that begins with a character that is not blank has a word. -/
theorem words_ne_nil {s : String} {c : Char} {cs : List Char} (hs : s.toList = c :: cs)
    (hc : isBlank c = false) : words s ≠ [] := by
  have hfirst : ∃ piece pieces, splitWhere isBlank s.toList = (c :: piece) :: pieces := by
    rw [hs, splitWhere, hc]
    cases splitWhere isBlank cs with
    | nil => exact ⟨[], [], rfl⟩
    | cons piece pieces => exact ⟨piece, pieces, rfl⟩
  obtain ⟨piece, pieces, hsplit⟩ := hfirst
  rw [words, hsplit]
  simp

end Text

namespace FullText

/-- A phrase that is read has a word. -/
theorem words_ne_nil_of_ofKey {param : String} {key : FullTextKey} {value : Json}
    {resource : Resource} {f : FullText} (hkey : ofKey param key value resource = .ok f) :
    f.words ≠ [] := by
  unfold ofKey at hkey
  split at hkey
  · cases hkey
  · rename_i text _
    dsimp only at hkey
    split at hkey
    · cases hkey
    · rename_i hphrase
      cases hkey
      rw [FullText.words, Text.truncate_eq]
      rw [Text.truncate_eq] at hphrase
      cases hfit : Text.fitting maxLength (Text.trim text).toList with
      | nil => simp [hfit] at hphrase
      | cons c cs =>
          obtain ⟨behind, hbehind⟩ := Text.prefix_of_fitting maxLength (Text.trim text).toList
          rw [hfit, Text.trim, String.toList_ofList] at hbehind
          exact Text.words_ne_nil String.toList_ofList (Text.head_trimChars hbehind.symm)

/-- What a search asks of the texts of attributes: that every word of the phrase, or at least one,
occurs in one of the searched ones, whatever its case. -/
def IsFoundIn (f : FullText) (texts : String → String) : Prop :=
  let occurs (word : String) : Prop :=
    ∃ name ∈ f.attributes, Operator.icontains.Finds Char.toLower word (texts name)
  if f.requireAll then ∀ word ∈ f.words, occurs word else ∃ word ∈ f.words, occurs word

instance (f : FullText) (texts : String → String) : Decidable (f.IsFoundIn texts) := by
  unfold IsFoundIn
  infer_instance

/-- The columns of the searched attributes hold texts. -/
def HoldsTexts (f : FullText) (resource : Resource) (texts : String → String)
    (values : String → Datum) : Prop :=
  ∀ name ∈ f.attributes, ∀ attr ∈ resource.attribute? name,
    values attr.columnName = .text (texts name)

/-- A valid search looks at all of its attributes: each of them is one of the resource. -/
theorem exists_searched_iff {f : FullText} {resource : Resource}
    (hvalid : f.validate resource = .ok ()) {p : Attribute → Prop} {q : String → Prop}
    (hsame : ∀ name ∈ f.attributes, ∀ attr ∈ resource.attribute? name, p attr ↔ q name) :
    (∃ attr ∈ f.attributes.filterMap resource.attribute?, p attr) ↔
      ∃ name ∈ f.attributes, q name := by
  have hfound : ∀ name ∈ f.attributes, ∃ attr, resource.attribute? name = some attr := by
    intro name hname
    unfold validate at hvalid
    split at hvalid
    · cases hvalid
    · have hname := Result.forM_eq_ok.1 hvalid name hname
      unfold validateAttribute at hname
      split at hname
      · cases hname
      · exact ⟨_, ‹_›⟩
  constructor
  · rintro ⟨attr, hattr, hp⟩
    obtain ⟨name, hname, hattr⟩ := List.mem_filterMap.1 hattr
    exact ⟨name, hname, (hsame name hname attr hattr).1 hp⟩
  · rintro ⟨name, hname, hq⟩
    obtain ⟨attr, hattr⟩ := hfound name hname
    exact ⟨attr, List.mem_filterMap.2 ⟨name, hname, hattr⟩, (hsame name hname attr hattr).2 hq⟩

/-- A valid search looks at some attribute. -/
theorem searched_ne_nil {f : FullText} {resource : Resource}
    (hvalid : f.validate resource = .ok ()) :
    f.attributes.filterMap resource.attribute? ≠ [] := by
  obtain ⟨name, hname⟩ : ∃ name, name ∈ f.attributes := by
    refine List.exists_mem_of_ne_nil _ fun hnil => ?_
    rw [validate, hnil] at hvalid
    cases hvalid
  obtain ⟨attr, hattr, -⟩ := (exists_searched_iff hvalid
    (p := fun _ => True) (q := fun _ => True) fun _ _ _ _ => Iff.rfl).2 ⟨name, hname, trivial⟩
  exact List.ne_nil_of_mem hattr

end FullText

namespace Sql

/-- A condition says of a row whether something holds. -/
def Engine.Says (engine : Engine) (env : Env) (condition : Expr) (p : Prop) : Prop :=
  (p → engine.eval [env] env condition = .bool true) ∧
    (¬p → engine.eval [env] env condition = .bool false)

namespace Engine

variable {engine : Engine} {env : Env}

theorem Says.of_bool {condition : Expr} {p : Prop} {b : Bool}
    (heval : engine.eval [env] env condition = .bool b) (hb : b = true ↔ p) :
    engine.Says env condition p := by
  constructor
  · intro hp
    rw [heval, hb.2 hp]
  · intro hp
    rw [heval, Bool.eq_false_iff.2 (mt hb.1 hp)]

theorem Says.keeps_iff {condition : Expr} {p : Prop} (htruth : engine.Says env condition p) :
    engine.keeps env condition = true ↔ p := by
  unfold keeps
  by_cases hp : p
  · rw [htruth.1 hp]
    exact iff_of_true rfl hp
  · rw [htruth.2 hp]
    exact iff_of_false nofun hp

variable {α : Type} {items : List α} {condition : α → Expr} {p : α → Prop}

/-- The truth values of conditions. -/
theorem exists_parts (htruth : ∀ x ∈ items, engine.Says env (condition x) (p x)) :
    ∃ holds : α → Bool, (∀ x ∈ items, holds x = true ↔ p x) ∧
      (items.map condition).map (engine.eval [env] env) = (items.map holds).map Datum.bool := by
  classical
  refine ⟨fun x => decide (p x), fun x _ => decide_eq_true_iff, ?_⟩
  rw [List.map_map, List.map_map]
  apply List.map_congr_left
  intro x hx
  show engine.eval [env] env (condition x) = .bool (decide (p x))
  by_cases hp : p x
  · rw [(htruth x hx).1 hp, decide_eq_true hp]
  · rw [(htruth x hx).2 hp, decide_eq_false hp]

theorem Says.any (htruth : ∀ x ∈ items, engine.Says env (condition x) (p x)) :
    engine.Says env (.any (items.map condition)) (∃ x ∈ items, p x) := by
  obtain ⟨holds, hholds, hparts⟩ := exists_parts htruth
  apply Says.of_bool (engine.eval_any [env] env hparts)
  rw [List.any_map, List.any_eq_true]
  exact exists_congr fun x => and_congr_right (hholds x)

theorem Says.all (htruth : ∀ x ∈ items, engine.Says env (condition x) (p x)) :
    engine.Says env (.all (items.map condition)) (∀ x ∈ items, p x) := by
  obtain ⟨holds, hholds, hparts⟩ := exists_parts htruth
  apply Says.of_bool (engine.eval_all [env] env hparts)
  rw [List.all_map, List.all_eq_true]
  exact forall₂_congr hholds

end Engine

/-- The pattern of LIKE for a word. -/
def wordPattern (word : String) : String := "%" ++ Text.upper (Text.escapeLike word) ++ "%"

/-- What the column of an attribute is asked about a word. -/
def wordTest (table word : String) (attr : Attribute) : Expr :=
  .like (upperOf (.column table attr.columnName)) (wordPattern word)

/-- The pattern for a word of ASCII finds it in a text whatever the case of either. -/
theorem accepts_wordPattern {word : String} (hword : Text.IsAscii word) (text : String) :
    Text.Signs.like.accepts Char.toLower (wordPattern word) text.toUpper = true ↔
      Operator.icontains.Finds Char.toLower word text := by
  have hescaped : Text.IsAscii (Text.escapeLike word) := hword.escapeWith _
  rw [wordPattern, hescaped.upper_eq, Text.escapeLike_toUpper]
  apply (Text.accepts_likePattern List.mem_cons_self Char.toLower word.toUpper text.toUpper).trans
  rw [Operator.Finds, Operator.Finds, Text.map_toLower_toUpper, Text.map_toLower_toUpper]

section LikeSearch

variable {t : Target} {f : FullText} {engine : Engine} {env : Env} {texts : String → String}

/-- A search by LIKE asks every searched column about every word. -/
theorem Target.fullText_eq (hsqlite : t.dialect = .sqlite) :
    t.fullText f =
      let tests := f.words.map fun word =>
        Expr.any ((f.attributes.filterMap t.resource.attribute?).map
          (wordTest t.resource.storage word))
      if f.requireAll then .all tests else .any tests := by
  simp only [Target.fullText, hsqlite, likeSearch, List.map_map]
  rfl

/-- What the columns of a search say of a word. -/
theorem says_word (hvalid : f.validate t.resource = .ok ()) (hengine : engine.FoldsAscii)
    (hrow : f.HoldsTexts t.resource texts (env.column t.resource.storage)) {word : String}
    (hword : Text.IsAscii word) :
    engine.Says env
      (.any ((f.attributes.filterMap t.resource.attribute?).map
        (wordTest t.resource.storage word)))
      (∃ name ∈ f.attributes, Operator.icontains.Finds Char.toLower word (texts name)) := by
  have heval : ∀ name ∈ f.attributes, ∀ attr ∈ t.resource.attribute? name,
      engine.eval [env] env (wordTest t.resource.storage word attr) =
        .bool (Text.Signs.like.accepts Char.toLower (wordPattern word) (texts name).toUpper) := by
    intro name hname attr hattr
    have hcolumn : engine.eval [env] env (.column t.resource.storage attr.columnName) =
        .text (texts name) := hrow name hname attr hattr
    exact hengine.eval_like_upperOf hcolumn (wordPattern word)
  have htruth : ∀ attr ∈ f.attributes.filterMap t.resource.attribute?,
      engine.Says env (wordTest t.resource.storage word attr)
        (engine.eval [env] env (wordTest t.resource.storage word attr) = .bool true) := by
    intro attr hattr
    obtain ⟨name, hname, hattr⟩ := List.mem_filterMap.1 hattr
    apply Engine.Says.of_bool (heval name hname attr hattr)
    rw [heval name hname attr hattr, Datum.bool.injEq]
  rw [← FullText.exists_searched_iff hvalid]
  · exact Engine.Says.any htruth
  · intro name hname attr hattr
    rw [heval name hname attr hattr, Datum.bool.injEq, accepts_wordPattern hword]

/-- A search by LIKE keeps the rows in which the words of the phrase occur. -/
theorem Target.keeps_fullText_iff (hsqlite : t.dialect = .sqlite)
    (hvalid : f.validate t.resource = .ok ()) (hphrase : Text.IsAscii f.phrase)
    (hengine : engine.FoldsAscii)
    (hrow : f.HoldsTexts t.resource texts (env.column t.resource.storage)) :
    engine.keeps env (t.fullText f) = true ↔ f.IsFoundIn texts := by
  have hwords : ∀ word ∈ f.words, engine.Says env _ _ :=
    fun word hword => says_word hvalid hengine hrow (hphrase.words hword)
  rw [Target.fullText_eq hsqlite, FullText.IsFoundIn]
  dsimp only
  split
  · exact (Engine.Says.all hwords).keeps_iff
  · exact (Engine.Says.any hwords).keeps_iff

end LikeSearch

end Sql

namespace Document

/-- A store that reads regular expressions as they are read here where text and pattern are of
ASCII. -/
structure Engine.MatchesAscii (engine : Engine) : Prop where
  regex {pattern options text : String} : Text.IsAscii pattern → Text.IsAscii text →
    (Text.Regex.read? pattern.toList).isSome → (Text.Regex.foldOf? options).isSome →
    engine.regex (.text text) pattern options = Text.Regex.accepts pattern options text

namespace Engine

variable {engine : Engine} {fields : Fields} {α : Type} {items : List α}

theorem holds_or_map (filter : α → Filter) : engine.holds fields (.or (items.map filter)) = true ↔
    ∃ x ∈ items, engine.holds fields (filter x) = true := by
  simp [holds, holdsEach_eq_map]

theorem holds_and_map (filter : α → Filter) :
    engine.holds fields (.and (items.map filter)) = true ↔
      ∀ x ∈ items, engine.holds fields (filter x) = true := by
  simp [holds, holdsEach_eq_map]

end Engine

section RegexSearch

variable {t : Target} {f : FullText} {engine : Engine} {fields : Fields} {texts : String → String}

/-- The expression for a word of ASCII finds it in a text whatever the case of either. -/
theorem Engine.MatchesAscii.passes_word (hengine : engine.MatchesAscii) {word text : String}
    (hword : Text.IsAscii word) (htext : Text.IsAscii text) :
    engine.passes (.text text) (.regex (Text.escapeRegex word) "i") = true ↔
      Operator.icontains.Finds Char.toLower word text := by
  have hpattern : Text.IsAscii (Text.escapeRegex word) := hword.escapeWith _
  have hpart : Operator.icontains ∈ Operator.forParts := by decide
  have hread : (Text.Regex.read? (Text.escapeRegex word).toList).isSome :=
    Option.isSome_of_eq_some (Text.Regex.read?_regexOf hpart word)
  rw [Engine.passes, hengine.regex hpattern htext hread rfl]
  exact Text.Regex.accepts_regexOf_of_open hpart rfl word text

/-- A search by regular expressions finds the documents in which the words of the phrase occur. -/
theorem Target.holds_fullText_iff (hvalid : f.validate t.resource = .ok ())
    (hphrase : Text.IsAscii f.phrase) (htexts : ∀ name ∈ f.attributes, Text.IsAscii (texts name))
    (hengine : engine.MatchesAscii) (hdocument : f.HoldsTexts t.resource texts fields) :
    engine.holds fields (t.fullText f) = true ↔ f.IsFoundIn texts := by
  have hword : ∀ word ∈ f.words,
      (engine.holds fields (.or (((f.attributes.filterMap t.resource.attribute?).map
        (·.columnName)).map fun field =>
          .field field (.regex (Text.escapeRegex word) "i"))) = true ↔
      ∃ name ∈ f.attributes, Operator.icontains.Finds Char.toLower word (texts name)) := by
    intro word hword
    rw [List.map_map, Engine.holds_or_map]
    apply FullText.exists_searched_iff hvalid
    intro name hname attr hattr
    rw [Function.comp_apply, Engine.holds, hdocument name hname attr hattr]
    exact hengine.passes_word (hphrase.words hword) (htexts name hname)
  simp only [Target.fullText, FullText.IsFoundIn]
  split
  · rw [Engine.holds_and_map]
    exact forall₂_congr hword
  · rw [Engine.holds_or_map]
    exact exists_congr fun word => and_congr_right (hword word)

end RegexSearch

/-- A store that reads regular expressions as they are read here, and compares nothing. -/
def asciiEngine : Engine where
  compare _ _ _ := false
  holdsAll _ _ := false
  regex
    | .text s, pattern, options => Text.Regex.accepts pattern options s
    | _, _, _ => false
  expr _ _ := false

theorem asciiEngine_matchesAscii : asciiEngine.MatchesAscii where
  regex _ _ _ _ := rfl

end Document

/-- A phrase that is read has a word, and where phrase and texts are of ASCII, a relational store
without text search and a document store find it if and only if its words occur. -/
theorem FullText.stores_find_phrase {param : String} {key : FullTextKey} {value : Json}
    {resource : Resource} {f : FullText} {texts : String → String}
    (hkey : ofKey param key value resource = .ok f) (hvalid : f.validate resource = .ok ())
    (hphrase : Text.IsAscii f.phrase)
    (htexts : ∀ name ∈ f.attributes, Text.IsAscii (texts name)) :
    f.words ≠ [] ∧
    (∀ (t : Sql.Target) (engine : Sql.Engine) (env : Sql.Env), t.dialect = .sqlite →
      t.resource = resource → engine.FoldsAscii →
      f.HoldsTexts resource texts (env.column resource.storage) →
      (engine.keeps env (t.fullText f) = true ↔ f.IsFoundIn texts)) ∧
    ∀ (t : Document.Target) (engine : Document.Engine) (fields : Document.Fields),
      t.resource = resource → engine.MatchesAscii → f.HoldsTexts resource texts fields →
      (engine.holds fields (t.fullText f) = true ↔ f.IsFoundIn texts) := by
  refine ⟨words_ne_nil_of_ofKey hkey, ?_, ?_⟩
  · rintro t engine env hsqlite rfl hengine hrow
    exact Sql.Target.keeps_fullText_iff hsqlite hvalid hphrase hengine hrow
  · rintro t engine fields rfl hengine hdocument
    exact Document.Target.holds_fullText_iff hvalid hphrase htexts hengine hdocument

namespace Furniture

/-- Furniture with a name and a material, both of which are searched. -/
def resource : Resource where
  name := "piece"
  storage := "pieces"
  attributes := [{ name := "name", kind := .string }, { name := "material", kind := .string }]
  fullText := ["name", "material"]

/-- A search for both words. -/
def bothWords : FullText where
  param := "q__all"
  phrase := "oak CHAIR"
  attributes := ["name", "material"]
  requireAll := true

/-- A chair of oak. -/
def chair (name : String) : String := if name = "name" then "Chair, 100%" else "solid Oak"

/-- A chair of oak is found in either store, one word in its name and one in its material. -/
theorem stores_find_phrase_chair :
    Sql.asciiEngine.keeps ⟨fun _ name => .text (chair name), fun name => .text (chair name)⟩
      (Sql.Target.fullText ⟨.sqlite, [], { entries := [] }, resource⟩ bothWords) = true ∧
    Document.asciiEngine.holds (fun name => .text (chair name))
      (Document.Target.fullText ⟨[], { entries := [] }, resource⟩ bothWords) = true := by
  have hkey : FullText.ofKey "q__all" { requireAll := some true } (.string " oak CHAIR") resource =
      .ok bothWords := rfl
  have htexts : ∀ name ∈ bothWords.attributes, Text.IsAscii (chair name) := by decide
  have hfields : bothWords.HoldsTexts resource chair fun name => .text (chair name) := by
    intro name hname attr hattr
    simp only [bothWords, List.mem_cons, List.not_mem_nil, or_false] at hname
    rcases hname with rfl | rfl <;>
      · cases hattr
        rfl
  obtain ⟨-, hrows, hdocuments⟩ := FullText.stores_find_phrase hkey rfl (by decide) htexts
  exact ⟨(hrows _ _ _ rfl rfl Sql.asciiEngine_foldsAscii hfields).2 (by decide),
    (hdocuments _ _ _ rfl Document.asciiEngine_matchesAscii hfields).2 (by decide)⟩

end Furniture
end Listing

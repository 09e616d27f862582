/-
# Needles in patterns

What a request looks for becomes a part of a pattern. Every sign that the language of the pattern
gives a meaning is escaped there, so what is read back is the needle character by character, with
any text before it or after it where the operator leaves that open. A pattern of LIKE, of GLOB or of
a wildcard query then matches exactly the texts that start with the needle, end with it or hold it.
-/
import Listing.Proofs.Semantics.Patterns
import Listing.SearchIndex.Condition
import Listing.Sql.Test

namespace Listing

namespace Text

variable {fold : Char → Char}

/-- A text begins with a part that is the needle, and what follows it satisfies a condition. -/
def BeginsWith (fold : Char → Char) (after : List Char → Prop) (needle cs : List Char) : Prop :=
  ∃ part rest, cs = part ++ rest ∧ part.map fold = needle.map fold ∧ after rest

/-- A text has a part that is the needle, and what stands before it and what follows it satisfy
conditions. -/
def HasPart (fold : Char → Char) (before after : List Char → Prop) (needle cs : List Char) : Prop :=
  ∃ front rest, cs = front ++ rest ∧ before front ∧ BeginsWith fold after needle rest

variable {after : List Char → Prop} {needle cs : List Char} {c d : Char}

theorem beginsWith_nil : BeginsWith fold after [] cs ↔ after cs := by
  constructor
  · rintro ⟨part, rest, rfl, hpart, hrest⟩
    rw [List.map_nil, List.map_eq_nil_iff] at hpart
    rwa [hpart]
  · exact fun hrest => ⟨[], cs, rfl, rfl, hrest⟩

theorem not_beginsWith_cons_nil : ¬BeginsWith fold after (c :: needle) [] := by
  rintro ⟨part, rest, hempty, hpart, -⟩
  rw [(List.append_eq_nil_iff.1 hempty.symm).1] at hpart
  cases hpart

theorem beginsWith_cons : BeginsWith fold after (c :: needle) (d :: cs) ↔
    fold d = fold c ∧ BeginsWith fold after needle cs := by
  constructor
  · rintro ⟨part, rest, htext, hpart, hrest⟩
    cases part with
    | nil => cases hpart
    | cons d' part =>
        obtain ⟨rfl, rfl⟩ := List.cons.inj htext
        obtain ⟨hequal, hpart⟩ := List.cons.inj hpart
        exact ⟨hequal, part, rest, rfl, hpart, hrest⟩
  · rintro ⟨hequal, part, rest, rfl, hpart, hrest⟩
    exact ⟨d :: part, rest, rfl, by rw [List.map_cons, List.map_cons, hequal, hpart], hrest⟩

end Text

namespace Operator

/-- The operators that look for a part of a text. -/
def forParts : List Operator :=
  [.iexact, .icontains, .startsWith, .istartsWith, .endsWith, .iendsWith]

/-- The needle has to stand at the start of the text. -/
def pinsStart : Operator → Bool
  | .iexact | .startsWith | .istartsWith => true
  | _ => false

/-- The needle has to stand at the end of the text. -/
def pinsEnd : Operator → Bool
  | .iexact | .endsWith | .iendsWith => true
  | _ => false

/-- A text is asked for a part that is the needle, with nothing before it or after it where it is
pinned. -/
theorem finds_iff_hasPart {op : Operator} (hop : op ∈ forParts) (fold : Char → Char)
    (needle text : String) : op.Finds fold needle text ↔
      Text.HasPart fold (fun front => op.pinsStart = true → front = [])
        (fun rest => op.pinsEnd = true → rest = []) needle.toList text.toList := by
  simp only [forParts, List.mem_cons, List.not_mem_nil, or_false] at hop
  rcases hop with rfl | rfl | rfl | rfl | rfl | rfl
  case inl =>
    show needle.toList.map fold = text.toList.map fold ↔ _
    constructor
    · intro heq
      exact ⟨[], text.toList, rfl, fun _ => rfl, text.toList, [], by simp, heq.symm, fun _ => rfl⟩
    · rintro ⟨front, _, htext, hfront, part, rest, rfl, hpart, hrest⟩
      rw [hfront rfl, hrest rfl, List.nil_append, List.append_nil] at htext
      rw [htext, hpart]
  case inr.inl =>
    show needle.toList.map fold <:+: text.toList.map fold ↔ _
    rw [List.infix_map_iff]
    constructor
    · rintro ⟨part, ⟨front, rest, htext⟩, hpart⟩
      rw [List.append_assoc] at htext
      exact ⟨front, part ++ rest, htext.symm, nofun, part, rest, rfl, hpart.symm, nofun⟩
    · rintro ⟨front, _, htext, -, part, rest, rfl, hpart, -⟩
      exact ⟨part, ⟨front, rest, by rw [htext, List.append_assoc]⟩, hpart.symm⟩
  case inr.inr.inl | inr.inr.inr.inl =>
    show needle.toList.map fold <+: text.toList.map fold ↔ _
    rw [List.prefix_map_iff]
    constructor
    · rintro ⟨part, ⟨rest, htext⟩, hpart⟩
      exact ⟨[], text.toList, rfl, fun _ => rfl, part, rest, htext.symm, hpart.symm, nofun⟩
    · rintro ⟨front, _, htext, hfront, part, rest, rfl, hpart, -⟩
      rw [hfront rfl, List.nil_append] at htext
      exact ⟨part, ⟨rest, htext.symm⟩, hpart.symm⟩
  case inr.inr.inr.inr.inl | inr.inr.inr.inr.inr =>
    show needle.toList.map fold <:+ text.toList.map fold ↔ _
    rw [List.suffix_map_iff]
    constructor
    · rintro ⟨part, ⟨front, htext⟩, hpart⟩
      exact ⟨front, part, htext.symm, nofun, part, [], by simp, hpart.symm, fun _ => rfl⟩
    · rintro ⟨front, _, htext, -, part, rest, rfl, hpart, hrest⟩
      rw [hrest rfl, List.append_nil] at htext
      exact ⟨part, ⟨front, htext.symm⟩, hpart.symm⟩

end Operator

namespace Text

namespace Piece

variable {fold : Char → Char} {pieces : List Piece} {cs : List Char}

theorem matchAll_run : matchAll fold (.run :: pieces) cs = true ↔
    ∃ front rest, cs = front ++ rest ∧ matchAll fold pieces rest = true := by
  rw [matchAll, List.any_eq_true]
  constructor
  · rintro ⟨rest, hrest, hmatch⟩
    obtain ⟨front, hfront⟩ := (List.mem_tails rest cs).1 hrest
    exact ⟨front, rest, hfront.symm, hmatch⟩
  · rintro ⟨front, rest, rfl, hmatch⟩
    exact ⟨rest, (List.mem_tails _ _).2 (List.suffix_append front rest), hmatch⟩

/-- Pieces that ask for the characters of a needle one by one match a part that is the needle. -/
theorem matchAll_spelled {spell : Char → CharSet}
    (hspell : ∀ c d, (spell c).holds fold d = (fold d == fold c)) (needle : List Char) :
    matchAll fold (needle.map (fun c => .one (spell c)) ++ pieces) cs = true ↔
      BeginsWith fold (matchAll fold pieces · = true) needle cs := by
  induction needle generalizing cs with
  | nil =>
      rw [beginsWith_nil]
      rfl
  | cons c needle ih =>
      cases cs with
      | nil => exact iff_of_false Bool.false_ne_true not_beginsWith_cons_nil
      | cons d cs =>
          rw [List.map_cons, List.cons_append, matchAll, hspell, Bool.and_eq_true, beq_iff_eq, ih,
            beginsWith_cons]

/-- Pieces with any text before them and after them, except where they are pinned. -/
def around (start stop : Bool) (pieces : List Piece) : List Piece :=
  (if start then [] else [.run]) ++ pieces ++ if stop then [] else [.run]

/-- A pattern around the characters of a needle matches the texts with a part that is the needle. -/
theorem matchAll_around {spell : Char → CharSet}
    (hspell : ∀ c d, (spell c).holds fold d = (fold d == fold c)) (start stop : Bool)
    (needle : List Char) :
    matchAll fold (around start stop (needle.map fun c => .one (spell c))) cs = true ↔
      HasPart fold (fun front => start = true → front = []) (fun rest => stop = true → rest = [])
        needle cs := by
  have hclose (rest : List Char) :
      matchAll fold (if stop then [] else [.run]) rest = true ↔ (stop = true → rest = []) := by
    cases stop with
    | true => simp [matchAll]
    | false => exact iff_of_true (matchAll_run.2 ⟨rest, [], by simp, rfl⟩) nofun
  have hopen (pieces : List Piece) :
      matchAll fold ((if start then [] else [.run]) ++ pieces) cs = true ↔
        ∃ front rest, cs = front ++ rest ∧ (start = true → front = []) ∧
          matchAll fold pieces rest = true := by
    cases start with
    | true => simp
    | false => simpa using matchAll_run
  rw [around, List.append_assoc, hopen]
  simp only [matchAll_spelled hspell, hclose, HasPart]

end Piece

/-- If each character is read back as what stands for it, whatever follows, so is an escaped text. -/
theorem read_flatMap {α : Type} {read : List Char → Option (List α)} {escape : Char → List Char}
    {literal : Char → α}
    (hchar : ∀ c cs, read (escape c ++ cs) = (read cs).map (literal c :: ·))
    (needle rest : List Char) :
    read (needle.flatMap escape ++ rest) = (read rest).map (needle.map literal ++ ·) := by
  induction needle with
  | nil => simp
  | cons c needle ih =>
      rw [List.flatMap_cons, List.append_assoc, hchar, ih, Option.map_map]
      rfl

theorem toList_escapeWith (special : Char → Bool) (s : String) : (escapeWith special s).toList =
    s.toList.flatMap fun c => if special c then ['\\', c] else [c] := by
  rw [escapeWith, String.toList_ofList]

namespace Signs

variable {signs : Signs}

theorem read?_escaped (c : Char) (cs : List Char) :
    signs.read? ('\\' :: c :: cs) = (signs.read? cs).map (.one (.char c) :: ·) :=
  if_pos rfl

theorem read?_plain {c : Char} (hc : c ≠ '\\') (cs : List Char) :
    signs.read? (c :: cs) = (signs.read? cs).map (signs.piece c :: ·) := by
  cases cs <;> exact if_neg hc

/-- A text in which every sign is escaped is read as its characters. -/
theorem read?_escapeWith {special : Char → Bool}
    (hspecial : ∀ c, special c = false → c ≠ '\\' ∧ c ≠ signs.run ∧ c ≠ signs.any)
    (needle : String) (rest : List Char) :
    signs.read? ((escapeWith special needle).toList ++ rest) =
      (signs.read? rest).map (needle.toList.map (fun c => .one (.char c)) ++ ·) := by
  rw [toList_escapeWith]
  apply read_flatMap
  intro c cs
  cases hc : special c with
  | true => exact read?_escaped c cs
  | false =>
      obtain ⟨hescape, hrun, hany⟩ := hspecial c hc
      have hpiece : signs.piece c = .one (.char c) := by
        rw [piece, if_neg hrun, if_neg hany]
      rw [← hpiece]
      exact read?_plain hescape cs

/-- A pattern that is an escaped needle, with the sign for any text where the operator does not pin
it, matches what the operator finds. -/
theorem accepts_iff_finds {special : Char → Bool}
    (hspecial : ∀ c, special c = false → c ≠ '\\' ∧ c ≠ signs.run ∧ c ≠ signs.any)
    (hsign : signs.run ≠ '\\') {op : Operator} (hop : op ∈ Operator.forParts)
    {pattern needle : String}
    (hpattern : pattern.toList = (if op.pinsStart then [] else [signs.run]) ++
      (escapeWith special needle).toList ++ if op.pinsEnd then [] else [signs.run])
    (fold : Char → Char) (text : String) :
    signs.accepts fold pattern text = true ↔ op.Finds fold needle text := by
  have hrun : signs.piece signs.run = .run := if_pos rfl
  have hstop : signs.read? (if op.pinsEnd then [] else [signs.run]) =
      some (if op.pinsEnd then [] else [.run]) := by
    cases op.pinsEnd with
    | true => rfl
    | false =>
        show signs.read? [signs.run] = _
        rw [read?_plain hsign, hrun]
        rfl
  have hread : signs.read? pattern.toList = some (Piece.around op.pinsStart op.pinsEnd
      (needle.toList.map fun c => .one (.char c))) := by
    rw [hpattern, List.append_assoc]
    cases hstart : op.pinsStart with
    | true =>
        rw [if_pos rfl, List.nil_append, read?_escapeWith hspecial, hstop]
        rfl
    | false =>
        rw [if_neg Bool.false_ne_true, List.singleton_append, read?_plain hsign, hrun,
          read?_escapeWith hspecial, hstop]
        rfl
  rw [accepts, hread, Option.any_some, Piece.matchAll_around (fun _ _ => rfl),
    Operator.finds_iff_hasPart hop]

end Signs

/-- The pattern of LIKE for a needle matches what the operator finds. -/
theorem accepts_likePattern {op : Operator}
    (hop : op ∈ [Operator.icontains, .startsWith, .istartsWith, .endsWith, .iendsWith])
    (fold : Char → Char) (needle text : String) :
    Signs.like.accepts fold (Sql.likePattern op needle) text = true ↔
      op.Finds fold needle text := by
  have hpattern : (Sql.likePattern op needle).toList =
      (if op.pinsStart then [] else ['%']) ++ (escapeLike needle).toList ++
        if op.pinsEnd then [] else ['%'] := by
    simp only [List.mem_cons, List.not_mem_nil, or_false] at hop
    rcases hop with rfl | rfl | rfl | rfl | rfl <;>
      simp [Sql.likePattern, Operator.pinsStart, Operator.pinsEnd, String.toList_append]
  exact Signs.accepts_iff_finds (fun c hc => by simpa [Signs.like, and_assoc] using hc)
    (by decide) (List.mem_cons_of_mem _ hop) hpattern fold text

/-- The pattern of a wildcard query for a needle matches what the operator finds. -/
theorem accepts_wildcardPattern {op : Operator}
    (hop : op ∈ [Operator.icontains, .endsWith, .iendsWith]) (fold : Char → Char)
    (needle text : String) :
    Signs.wildcard.accepts fold (SearchIndex.wildcardPattern op needle) text = true ↔
      op.Finds fold needle text := by
  have hpart : op ∈ Operator.forParts := by
    revert hop
    cases op <;> decide
  have hpattern : (SearchIndex.wildcardPattern op needle).toList =
      (if op.pinsStart then [] else ['*']) ++ (escapeWildcard needle).toList ++
        if op.pinsEnd then [] else ['*'] := by
    simp only [List.mem_cons, List.not_mem_nil, or_false] at hop
    rcases hop with rfl | rfl | rfl <;>
      simp [SearchIndex.wildcardPattern, Operator.pinsStart, Operator.pinsEnd,
        String.toList_append]
  exact Signs.accepts_iff_finds (fun c hc => by simpa [Signs.wildcard, and_assoc] using hc)
    (by decide) hpart hpattern fold text

namespace Glob

/-- The set that an escaped character stands for. -/
def literalSet (c : Char) : CharSet :=
  if c == '*' || c == '?' || c == '[' then .ranges false [(c, c)] else .char c

theorem literalSet_holds (c d : Char) : (literalSet c).holds id d = (id d == id c) := by
  unfold literalSet
  split
  · have hiff : (c ≤ d ∧ d ≤ c) ↔ d = c :=
      ⟨fun hle => Char.le_antisymm hle.2 hle.1, fun heq => heq ▸ ⟨Char.le_refl d, Char.le_refl d⟩⟩
    rw [Bool.eq_iff_iff]
    simp [CharSet.holds, hiff]
  · rfl

/-- Outside of a class, a character that has a meaning is read as what stands in a class of its
own. -/
theorem readFrom?_class {c : Char} (hc : (c == '*' || c == '?' || c == '[') = true)
    (cs : List Char) : readFrom? none ('[' :: c :: ']' :: cs) =
      (readFrom? none cs).map (.one (literalSet c) :: ·) := by
  have hset : literalSet c = .ranges false [(c, c)] := if_pos hc
  rw [hset]
  simp only [Bool.or_eq_true, beq_iff_eq] at hc
  rcases hc with (rfl | rfl) | rfl <;> rfl

theorem readFrom?_plain {c : Char} (hc : (c == '*' || c == '?' || c == '[') = false)
    (cs : List Char) : readFrom? none (c :: cs) =
      (readFrom? none cs).map (.one (literalSet c) :: ·) := by
  have hset : literalSet c = .char c := if_neg (by simp [hc])
  simp only [Bool.or_eq_false_iff, beq_eq_false_iff_ne] at hc
  rw [hset, readFrom?, if_neg hc.2, if_neg hc.1.1, if_neg hc.1.2]

/-- An escaped text is read as its characters. -/
theorem readFrom?_escapeGlob (needle : String) (rest : List Char) :
    readFrom? none ((escapeGlob needle).toList ++ rest) =
      (readFrom? none rest).map (needle.toList.map (fun c => .one (literalSet c)) ++ ·) := by
  rw [escapeGlob, String.toList_ofList]
  apply read_flatMap
  intro c cs
  cases hc : c == '*' || c == '?' || c == '[' with
  | true => exact readFrom?_class hc cs
  | false => exact readFrom?_plain hc cs

end Glob

/-- The pattern of GLOB for a needle matches what the operator finds. -/
theorem accepts_globPattern {op : Operator} (hop : op ∈ [Operator.startsWith, .endsWith])
    (needle text : String) :
    Glob.accepts (Sql.globPattern op needle) text = true ↔ op.Finds id needle text := by
  have hpart : op ∈ Operator.forParts := by
    revert hop
    cases op <;> decide
  have hread : Glob.readFrom? none (Sql.globPattern op needle).toList = some (Piece.around
      op.pinsStart op.pinsEnd (needle.toList.map fun c => .one (Glob.literalSet c))) := by
    simp only [List.mem_cons, List.not_mem_nil, or_false] at hop
    rcases hop with rfl | rfl
    case inl =>
      rw [Sql.globPattern, String.toList_append, Glob.readFrom?_escapeGlob]
      rfl
    case inr =>
      have hrun (cs : List Char) :
          Glob.readFrom? none ('*' :: cs) = (Glob.readFrom? none cs).map (.run :: ·) := rfl
      have hpattern : (Sql.globPattern .endsWith needle).toList =
          '*' :: ((escapeGlob needle).toList ++ []) := by
        simp [Sql.globPattern, String.toList_append]
      rw [hpattern, hrun, Glob.readFrom?_escapeGlob]
      rfl
  rw [Glob.accepts, hread, Option.any_some, Piece.matchAll_around Glob.literalSet_holds,
    Operator.finds_iff_hasPart hpart]

/-- The patterns for a needle match what their operator finds, whichever characters the needle and
the text are of: those of LIKE and of wildcard queries for every way to compare characters, those of
GLOB where case counts. -/
theorem patterns_find_needle (needle text : String) :
    (∀ op ∈ [Operator.icontains, .startsWith, .istartsWith, .endsWith, .iendsWith],
      ∀ fold : Char → Char, Signs.like.accepts fold (Sql.likePattern op needle) text = true ↔
        op.Finds fold needle text) ∧
    (∀ op ∈ [Operator.startsWith, .endsWith],
      Glob.accepts (Sql.globPattern op needle) text = true ↔ op.Finds id needle text) ∧
    ∀ op ∈ [Operator.icontains, .endsWith, .iendsWith], ∀ fold : Char → Char,
      Signs.wildcard.accepts fold (SearchIndex.wildcardPattern op needle) text = true ↔
        op.Finds fold needle text :=
  ⟨fun _ hop fold => accepts_likePattern hop fold needle text,
    fun _ hop => accepts_globPattern hop needle text,
    fun _ hop fold => accepts_wildcardPattern hop fold needle text⟩

/-- A needle of signs is found as it is spelled, and what the signs would stand for is not. -/
theorem patterns_find_needle_signs :
    Signs.like.accepts Char.toLower (Sql.likePattern .icontains "A_%") "ba_%" = true ∧
    Glob.accepts (Sql.globPattern .startsWith "[*") "[*]" = true ∧
    Glob.accepts (Sql.globPattern .endsWith "[ab]") "a" = false ∧
    Signs.wildcard.accepts id (SearchIndex.wildcardPattern .endsWith "\\?") "a\\?" = true := by
  have hlike := (patterns_find_needle "A_%" "ba_%").1 .icontains (by decide) Char.toLower
  have hstart := (patterns_find_needle "[*" "[*]").2.1 .startsWith (by decide)
  have hend := (patterns_find_needle "[ab]" "a").2.1 .endsWith (by decide)
  have hwildcard := (patterns_find_needle "\\?" "a\\?").2.2 .endsWith (by decide) id
  refine ⟨hlike.2 (by decide), hstart.2 (by decide), ?_, hwildcard.2 (by decide)⟩
  rw [Bool.eq_false_iff, Ne, hend]
  decide

end Text
end Listing

/-
# Reading templates

A template is cut at its holes, its pieces are joined by marks, and the marked text is read again
from its start. This gives the expressions their places back, if every mark is met outside of
quotations and words and nothing else looks like a mark. Here this is reduced to a property of the
pieces: each of them is read as text and leaves the reader outside, and what follows a mark cannot
be taken for a part of it. A text with this property is put together from texts that have it.
-/
import Listing.Proofs.IntegerTexts
import Listing.Sql.Template
import Listing.Sql.Test

namespace Listing.Sql
namespace Template

/-- Pieces of text with the holes between them, counted from a position on. -/
def spread (position : Nat) : List (List Char) → List Part
  | [] => []
  | [piece] => piece.map .text
  | piece :: pieces => piece.map .text ++ .hole position :: spread (position + 1) pieces

/-- Where the reader stands after a character. -/
def advance (d : Dialect) (state : Mode × Nat) (c : Char) : Mode × Nat :=
  (step d state.2 state.1 c).2

/-- In a quotation. -/
def Mode.isQuoted : Mode → Bool
  | .quoted .. => true
  | _ => false

/-- The marked text in front of the mark of a hole. -/
def textBefore (d : Dialect) (text : String) (position : Nat) : List Char :=
  joinMarked d 1 ((cut text.toList).take (position + 1))

/-- A template takes a number of expressions: it has as many holes, the mark of each of them stands
outside of quotations, and reading the marked text gives back the pieces of text and the holes
between them, in their order. -/
structure Takes (d : Dialect) (text : String) (count : Nat) : Prop where
  holes : (cut text.toList).length = count + 1
  outside : ∀ position < count,
    ((textBefore d text position).foldl (advance d) (.plain, 0)).1.isQuoted = false
  read : parts d text = spread 0 (cut text.toList)

/-! ### Text -/

/-- Where the reader stands after a character that is read as text; after a mark no character is,
for it decides what the mark was. -/
def Mode.take? (d : Dialect) : Mode → Char → Option Mode
  | .mark, _ | .number _, _ => none
  | mode, c => match step d 0 mode c with
    | ([.text _], next, _) => some next
    | _ => none

theorem step_of_take? {d : Dialect} {mode next : Mode} {c : Char}
    (htake : mode.take? d c = some next) (count : Nat) :
    step d count mode c = ([.text c], next, count) := by
  cases mode with
  | mark | number => cases htake
  | plain => grind [Mode.take?, step, plainStep]
  | word => grind [Mode.take?, step, plainStep]
  | quoted => grind [Mode.take?, step]
  | closed => grind [Mode.take?, step, plainStep]

section

variable {d : Dialect} {mode next : Mode} {cs : List Char}

/-- What is read as text adds its characters, whatever comes behind it. -/
theorem scan_of_take? (htake : cs.foldlM (Mode.take? d) mode = some next) (count : Nat)
    (rest : List Char) :
    scan d count mode (cs ++ rest) = cs.map .text ++ scan d count next rest := by
  induction cs generalizing mode with
  | nil =>
      cases htake
      rfl
  | cons c cs ih =>
      rw [List.foldlM_cons] at htake
      obtain ⟨middle, hc, hcs⟩ := Option.bind_eq_some_iff.1 htake
      rw [List.cons_append, scan, step_of_take? hc count]
      exact congrArg (Part.text c :: ·) (ih hcs)

theorem foldl_of_take? (htake : cs.foldlM (Mode.take? d) mode = some next) (count : Nat) :
    cs.foldl (advance d) (mode, count) = (next, count) := by
  induction cs generalizing mode with
  | nil =>
      cases htake
      rfl
  | cons c cs ih =>
      rw [List.foldlM_cons] at htake
      obtain ⟨middle, hc, hcs⟩ := Option.bind_eq_some_iff.1 htake
      rw [List.foldl_cons, advance, step_of_take? hc count]
      exact ih hcs

end

/-! ### Holes -/

theorem growFirst_cons (c : Char) (piece : List Char) (pieces : List (List Char)) :
    Text.growFirst c (piece :: pieces) = (c :: piece) :: pieces := rfl

theorem cut_ne_nil (cs : List Char) : cut cs ≠ [] := by
  induction cs using cut.induct with
  | case1 => simp [cut]
  | case2 cs ih => simp [cut]
  | case3 c cs hpair ih =>
      rw [cut]
      · cases hcut : cut cs <;> simp [Text.growFirst]
      · exact hpair

/-- A character that does not begin a hole belongs to the first piece. -/
theorem cut_cons {c : Char} {cs : List Char} (hplain : ¬ (c = '{' ∧ cs.head? = some '}')) :
    cut (c :: cs) = Text.growFirst c (cut cs) := by
  rw [cut]
  rintro rest rfl rfl
  exact hplain ⟨rfl, rfl⟩

/-- A text without a hole belongs to the first piece of what follows, if no hole stands across. -/
theorem cut_append {piece rest first : List Char} {pieces : List (List Char)}
    (hpiece : cut piece = [piece]) (hrest : cut rest = first :: pieces)
    (hacross : piece.getLast? = some '{' → rest.head? ≠ some '}') :
    cut (piece ++ rest) = (piece ++ first) :: pieces := by
  induction piece with
  | nil => exact hrest
  | cons c piece ih =>
      by_cases hpair : c = '{' ∧ piece.head? = some '}'
      · -- The text would have a hole at its start.
        obtain ⟨rfl, hhead⟩ := hpair
        obtain ⟨behind, rfl⟩ := List.head?_eq_some_iff.1 hhead
        rw [cut] at hpiece
        simp at hpiece
      · have hrestPair : ¬ (c = '{' ∧ (piece ++ rest).head? = some '}') := by
          rintro ⟨rfl, hhead⟩
          cases piece with
          | nil => exact hacross rfl hhead
          | cons next piece => exact hpair ⟨rfl, hhead⟩
        rw [cut_cons hpair] at hpiece
        have hinner : cut piece = [piece] := by
          cases hpieces : cut piece with
          | nil => exact absurd hpieces (cut_ne_nil piece)
          | cons x xs =>
              rw [hpieces, growFirst_cons] at hpiece
              simpa using hpiece
        have hinnerAcross : piece.getLast? = some '{' → rest.head? ≠ some '}' := by
          cases piece with
          | nil => nofun
          | cons next piece => simpa [List.getLast?_cons_cons] using hacross
        rw [List.cons_append, cut_cons hrestPair, ih hinner hinnerAcross, growFirst_cons]
        rfl

theorem cut_hole (cs : List Char) : cut ('{' :: '}' :: cs) = [] :: cut cs := by rw [cut]

theorem cut_append_hole {piece : List Char} (hpiece : cut piece = [piece]) (rest : List Char) :
    cut (piece ++ '{' :: '}' :: rest) = piece :: cut rest := by
  rw [cut_append hpiece (cut_hole rest) nofun, List.append_nil]

/-- A text without a hole, at the end of which none begins. -/
structure IsWhole (piece : List Char) : Prop where
  cut : cut piece = [piece]
  last : piece.getLast? ≠ some '{'

theorem IsWhole.append {p q : List Char} (hp : IsWhole p) (hq : IsWhole q) : IsWhole (p ++ q) where
  cut := cut_append hp.cut hq.cut fun hlast => absurd hlast hp.last
  last := by
    have hend := hq.last
    rw [List.getLast?_append]
    cases hlast : q.getLast? with
    | none => simpa using hp.last
    | some c => simpa [hlast] using hend

/-! ### Pieces -/

/-- A text without a hole that is read as text, after which the reader stands as at the start. -/
structure Clear (d : Dialect) (piece : List Char) : Prop where
  whole : IsWhole piece
  take : piece.foldlM (Mode.take? d) .plain = some .plain

theorem Clear.nil (d : Dialect) : Clear d [] := ⟨⟨rfl, nofun⟩, rfl⟩

theorem Clear.append {d : Dialect} {p q : List Char} (hp : Clear d p) (hq : Clear d q) :
    Clear d (p ++ q) where
  whole := hp.whole.append hq.whole
  take := by rw [List.foldlM_append, hp.take]; exact hq.take

/-- A character that may follow a mark: it ends the number of the mark, it does not double it, and
it does not begin a hole. -/
def isSeparator (d : Dialect) (c : Char) : Bool := c != d.mark && !isWordChar c && c != '{'

/-- What begins with a separator, if with anything. -/
def IsSeparated (d : Dialect) (cs : List Char) : Prop := ∀ c ∈ cs.head?, isSeparator d c = true

theorem IsSeparated.cons {d : Dialect} {c : Char} (hc : isSeparator d c = true) (cs : List Char) :
    IsSeparated d (c :: cs) := by
  rintro _ ⟨⟩
  exact hc

theorem IsSeparated.append {d : Dialect} {p : List Char} (hp : IsSeparated d p) (hnonempty : p ≠ [])
    (q : List Char) : IsSeparated d (p ++ q) := by
  cases p with
  | nil => exact absurd rfl hnonempty
  | cons c p => exact hp

/-- A text with a number of holes, of which each stands behind a clear piece and before a
separator or the end. -/
inductive Woven (d : Dialect) : List Char → Nat → Prop
  | text {piece : List Char} (clear : Clear d piece) : Woven d piece 0
  | hole {piece rest : List Char} {count : Nat} (clear : Clear d piece) (woven : Woven d rest count)
      (separated : IsSeparated d rest) : Woven d (piece ++ '{' :: '}' :: rest) (count + 1)

/-! ### Marks -/

section

variable {d : Dialect} {rest : List Char} {count : Nat}

theorem beginsWord_of_isDigit {c : Char} (hc : Number.isDigit c = true) : beginsWord c = true := by
  simp [beginsWord, hc]

theorem isWordChar_of_isDigit {c : Char} (hc : Number.isDigit c = true) : isWordChar c = true := by
  simp [isWordChar, beginsWord_of_isDigit hc]

theorem ne_mark_of_isDigit (d : Dialect) {c : Char} (hc : Number.isDigit c = true) :
    c ≠ d.mark := by
  rintro rfl
  cases d <;> cases hc

/-- The mark itself is no part of the text. -/
theorem step_mark (count : Nat) : step d count .plain d.mark = ([], .mark, count) := by
  simp [step, plainStep]

theorem step_first_digit (hnumbered : d.isNumbered = true) {c : Char}
    (hc : Number.isDigit c = true) (count : Nat) :
    step d count .mark c = ([], .number [c], count) := by
  simp [step, ne_mark_of_isDigit d hc, hnumbered, beginsWord_of_isDigit hc]

theorem step_digit {c : Char} (hc : Number.isDigit c = true) (seen : List Char) (count : Nat) :
    step d count (.number seen) c = ([], .number (c :: seen), count) := by
  simp [step, isWordChar_of_isDigit hc]

/-- Behind a mark without a number, a separator ends the mark and is read as any other character. -/
theorem step_mark_separator (hunnumbered : d.isNumbered = false) {c : Char}
    (hc : isSeparator d c = true) (count : Nat) : step d count .mark c =
      (.hole count :: (step d (count + 1) .plain c).1, (step d (count + 1) .plain c).2) := by
  have hmark : c ≠ d.mark := by
    rintro rfl
    simp [isSeparator] at hc
  simp [step, hmark, hunnumbered]

/-- So does a separator behind the number of a mark. -/
theorem step_number_separator {c : Char} (hc : isSeparator d c = true) (seen : List Char)
    (count : Nat) : step d count (.number seen) c =
      (numberedHole seen ++ (step d count .plain c).1, (step d count .plain c).2) := by
  have hword : isWordChar c = false := by
    simp only [isSeparator, Bool.and_eq_true, Bool.not_eq_true'] at hc
    exact hc.1.2
  simp [step, hword]

theorem scan_digits {ds : List Char} (hdigits : ∀ c ∈ ds, Number.isDigit c = true)
    (seen : List Char) (rest : List Char) : scan d count (.number seen) (ds ++ rest) =
      scan d count (.number (ds.reverse ++ seen)) rest := by
  induction ds generalizing seen with
  | nil => rfl
  | cons c ds ih =>
      obtain ⟨hc, hdigits⟩ := List.forall_mem_cons.1 hdigits
      rw [List.cons_append, scan, step_digit hc]
      refine (ih hdigits _).trans ?_
      rw [List.reverse_cons, List.append_assoc]
      rfl

theorem foldl_digits {ds : List Char} (hdigits : ∀ c ∈ ds, Number.isDigit c = true)
    (seen : List Char) :
    ds.foldl (advance d) (.number seen, count) = (.number (ds.reverse ++ seen), count) := by
  induction ds generalizing seen with
  | nil => rfl
  | cons c ds ih =>
      obtain ⟨hc, hdigits⟩ := List.forall_mem_cons.1 hdigits
      rw [List.foldl_cons, advance, step_digit hc, ih hdigits, List.reverse_cons,
        List.append_assoc]
      rfl

/-- The number of a mark is the position of its hole, counted from one. -/
theorem numberedHole_digits (position : Nat) :
    numberedHole (Number.digits (position + 1)).reverse = [.hole position] := by
  rw [numberedHole, List.reverse_reverse, Number.readDigits?_digits]

/-- The digits of a position, of which there is at least one. -/
theorem exists_digits (position : Nat) : ∃ c ds, Number.digits position = c :: ds ∧
    Number.isDigit c = true ∧ ∀ c ∈ ds, Number.isDigit c = true := by
  cases hdigits : Number.digits position with
  | nil => exact absurd hdigits (Number.digits_ne_nil position)
  | cons c ds =>
      have hall := List.all_eq_true.1 (Number.all_isDigit_digits position)
      rw [hdigits] at hall
      obtain ⟨hc, hds⟩ := List.forall_mem_cons.1 hall
      exact ⟨c, ds, rfl, hc, hds⟩

/-- A mark stands for the expression at its position, and behind it the reader stands as at the
start. -/
theorem scan_markAt {position : Nat} (hcount : d.isNumbered = true ∨ count = position)
    (hrest : IsSeparated d rest) : ∃ next, (d.isNumbered = true ∨ next = position + 1) ∧
      scan d count .plain (markAt d (position + 1) ++ rest) =
        .hole position :: scan d next .plain rest := by
  cases hnumbered : d.isNumbered with
  | false =>
      obtain rfl : count = position := by simpa [hnumbered] using hcount
      refine ⟨count + 1, .inr rfl, ?_⟩
      have hmark : scan d count .plain (markAt d (count + 1) ++ rest) =
          scan d count .mark rest := by
        rw [markAt, hnumbered, if_neg (by decide), List.singleton_append, scan, step_mark]
        rfl
      rw [hmark]
      cases rest with
      | nil => rfl
      | cons c rest =>
          rw [scan, step_mark_separator hnumbered (hrest c rfl), scan]
          rfl
  | true =>
      refine ⟨count, .inl rfl, ?_⟩
      obtain ⟨c, ds, hdigits, hc, hds⟩ := exists_digits (position + 1)
      have hmark : scan d count .plain (markAt d (position + 1) ++ rest) =
          scan d count (.number (Number.digits (position + 1)).reverse) rest := by
        rw [markAt, hnumbered, if_pos rfl, hdigits, List.cons_append, scan, step_mark]
        show scan d count .mark (c :: (ds ++ rest)) = _
        rw [scan, step_first_digit hnumbered hc]
        show scan d count (.number [c]) (ds ++ rest) = _
        rw [scan_digits hds, List.reverse_cons]
      rw [hmark]
      cases rest with
      | nil => exact numberedHole_digits position
      | cons c rest =>
          rw [scan, step_number_separator (hrest c rfl), numberedHole_digits, scan]
          rfl

/-- Behind a mark and a separator the reader stands as if there had been no mark. -/
theorem foldl_markAt (position count : Nat) {c : Char} (hc : isSeparator d c = true) :
    ∃ next, (markAt d position ++ c :: rest).foldl (advance d) (.plain, count) =
      (c :: rest).foldl (advance d) (.plain, next) := by
  have hmark : advance d (.plain, count) d.mark = (.mark, count) := by rw [advance, step_mark]
  rw [List.foldl_append]
  cases hnumbered : d.isNumbered with
  | false =>
      have hend : advance d (.mark, count) c = advance d (.plain, count + 1) c := by
        rw [advance, step_mark_separator hnumbered hc, advance]
      refine ⟨count + 1, ?_⟩
      rw [markAt, hnumbered, if_neg (by decide)]
      simp only [List.foldl_cons, List.foldl_nil, hmark, hend]
  | true =>
      obtain ⟨first, ds, hdigits, hfirst, hds⟩ := exists_digits position
      have hnumber : advance d (.mark, count) first = (.number [first], count) := by
        rw [advance, step_first_digit hnumbered hfirst]
      have hend (seen : List Char) :
          advance d (.number seen, count) c = advance d (.plain, count) c := by
        rw [advance, step_number_separator hc, advance]
      refine ⟨count, ?_⟩
      rw [markAt, hnumbered, if_pos rfl, hdigits]
      simp only [List.foldl_cons, hmark, hnumber, foldl_digits hds, hend]

end

/-! ### Woven texts -/

theorem joinMarked_cons_cons (d : Dialect) (position : Nat) (piece next : List Char)
    (pieces : List (List Char)) : joinMarked d position (piece :: next :: pieces) =
      piece ++ (markAt d position ++ joinMarked d (position + 1) (next :: pieces)) :=
  List.append_assoc ..

theorem spread_cons_cons (position : Nat) (piece next : List Char) (pieces : List (List Char)) :
    spread position (piece :: next :: pieces) =
      piece.map .text ++ .hole position :: spread (position + 1) (next :: pieces) := rfl

namespace Woven

variable {d : Dialect} {text : List Char} {count : Nat}

theorem length_cut (hwoven : Woven d text count) : (cut text).length = count + 1 := by
  induction hwoven with
  | text clear => rw [clear.whole.cut, List.length_singleton]
  | hole clear woven separated ih =>
      rw [cut_append_hole clear.whole.cut, List.length_cons, ih]

/-- What is joined again from the pieces of a text begins as the text does. -/
theorem head?_joinMarked {c : Char} {rest : List Char} (hc : isSeparator d c = true)
    (position limit : Nat) : ∃ joined,
      joinMarked d position ((cut (c :: rest)).take (limit + 1)) = c :: joined := by
  have hbrace : c ≠ '{' := by
    rintro rfl
    simp [isSeparator] at hc
  cases hrest : cut rest with
  | nil => exact absurd hrest (cut_ne_nil rest)
  | cons piece pieces =>
      rw [cut_cons fun h => hbrace h.1, hrest, growFirst_cons, List.take_succ_cons]
      cases pieces.take limit with
      | nil => exact ⟨_, rfl⟩
      | cons next later => exact ⟨_, rfl⟩

theorem isSeparated_joinMarked {rest : List Char} (hrest : IsSeparated d rest) (position : Nat) :
    IsSeparated d (joinMarked d position (cut rest)) := by
  cases rest with
  | nil => exact hrest
  | cons c rest =>
      have hc := hrest c rfl
      have hall : (cut (c :: rest)).take ((cut (c :: rest)).length + 1) = cut (c :: rest) :=
        List.take_of_length_le (Nat.le_succ _)
      obtain ⟨joined, hjoined⟩ : ∃ joined, joinMarked d position (cut (c :: rest)) = c :: joined :=
        hall ▸ head?_joinMarked hc position _
      rw [hjoined]
      rintro _ ⟨⟩
      exact hc

/-- The pieces are read as text, and the marks as the holes between them. -/
theorem scan_joinMarked (hwoven : Woven d text count) {position seen : Nat}
    (hseen : d.isNumbered = true ∨ seen = position) :
    scan d seen .plain (joinMarked d (position + 1) (cut text)) = spread position (cut text) := by
  induction hwoven generalizing position seen with
  | @text piece clear =>
      have hscan := scan_of_take? clear.take seen []
      rw [List.append_nil] at hscan
      rw [clear.whole.cut, joinMarked, hscan, spread]
      exact List.append_nil _
  | @hole piece rest count clear woven separated ih =>
      obtain ⟨next, hnext, hmark⟩ :=
        scan_markAt hseen (isSeparated_joinMarked separated (position + 1 + 1))
      have hrest := ih hnext
      rw [cut_append_hole clear.whole.cut]
      cases hpieces : cut rest with
      | nil => exact absurd hpieces (cut_ne_nil rest)
      | cons first pieces =>
          rw [hpieces] at hmark hrest
          rw [joinMarked_cons_cons, scan_of_take? clear.take, hmark, hrest, spread_cons_cons]

/-- In front of each mark the reader stands as at the start. -/
theorem foldl_joinMarked (hwoven : Woven d text count) {limit : Nat} (hlimit : limit < count)
    (position seen : Nat) : ∃ next, (joinMarked d position ((cut text).take (limit + 1))).foldl
      (advance d) (.plain, seen) = (.plain, next) := by
  induction hwoven generalizing limit position seen with
  | text => exact absurd hlimit (Nat.not_lt_zero limit)
  | @hole piece rest count clear woven separated ih =>
      rw [cut_append_hole clear.whole.cut, List.take_succ_cons]
      cases limit with
      | zero =>
          rw [List.take_zero, joinMarked]
          exact ⟨seen, foldl_of_take? clear.take seen⟩
      | succ limit =>
          have hwithin : limit < count := Nat.lt_of_succ_lt_succ hlimit
          cases rest with
          | nil =>
              -- There is no hole behind this one.
              have hlength : 1 = count + 1 := woven.length_cut
              omega
          | cons c rest =>
              have hc := separated c rfl
              have hinner := ih hwithin (position + 1)
              obtain ⟨joined, hjoined⟩ : ∃ joined, joinMarked d (position + 1)
                  ((cut (c :: rest)).take (limit + 1)) = c :: joined :=
                head?_joinMarked hc (position + 1) limit
              cases hpieces : cut (c :: rest) with
              | nil => exact absurd hpieces (cut_ne_nil _)
              | cons first pieces =>
                  rw [hpieces, List.take_succ_cons] at hjoined hinner
                  obtain ⟨next, hmark⟩ := foldl_markAt position seen hc
                  rw [List.take_succ_cons, joinMarked_cons_cons, List.foldl_append,
                    foldl_of_take? clear.take, hjoined, hmark, ← hjoined]
                  exact hinner next

end Woven

/-- A woven text takes as many expressions as it has holes. -/
theorem takes_of_woven {d : Dialect} {text : String} {count : Nat}
    (hwoven : Woven d text.toList count) : Takes d text count where
  holes := hwoven.length_cut
  outside position hposition := by
    obtain ⟨next, hnext⟩ := hwoven.foldl_joinMarked hposition 1 0
    rw [textBefore, hnext]
    rfl
  read := hwoven.scan_joinMarked (.inr rfl)

/-! ### Putting templates together -/

/-- The first of several copies of a text with a separator between them. -/
theorem intercalate_replicate_succ (separator unit : List Char) (times : Nat) :
    separator.intercalate (List.replicate (times + 1 + 1) unit) =
      unit ++ (separator ++ separator.intercalate (List.replicate (times + 1) unit)) := by
  rw [List.replicate_succ, List.replicate_succ, List.intercalate_cons_cons, List.append_assoc]

/-- A text with a number of holes that may stand behind any clear piece, and before any woven text
that begins with a separator. -/
structure Block (d : Dialect) (block : List Char) (count : Nat) : Prop where
  weave : ∀ {piece rest : List Char} {more : Nat}, Clear d piece → Woven d rest more →
    IsSeparated d rest → Woven d (piece ++ (block ++ rest)) (count + more)

namespace Block

variable {d : Dialect} {a b : List Char} {m n : Nat}

theorem woven (hb : Block d b n) : Woven d b n := by
  simpa using hb.weave (.nil d) (.text (.nil d)) nofun

theorem text (hclear : Clear d b) : Block d b 0 where
  weave {piece rest more} hpiece hrest _ := by
    have hfront := hpiece.append hclear
    rw [Nat.zero_add, ← List.append_assoc]
    cases hrest with
    | text clear => exact .text (hfront.append clear)
    | hole clear woven separated =>
        rw [← List.append_assoc]
        exact .hole (hfront.append clear) woven separated

theorem hole (d : Dialect) : Block d Sql.hole.toList 1 where
  weave hpiece hrest hseparated := by
    rw [Nat.add_comm]
    exact .hole hpiece hrest hseparated

theorem prepend (hclear : Clear d a) (hb : Block d b n) : Block d (a ++ b) n where
  weave {piece rest more} hpiece hrest hseparated := by
    have hwoven := hb.weave (hpiece.append hclear) hrest hseparated
    rwa [List.append_assoc] at hwoven ⊢

theorem append (ha : Block d a m) (hb : Block d b n) (hseparated : IsSeparated d b) :
    Block d (a ++ b) (m + n) where
  weave {piece rest more} hpiece hrest hrestSeparated := by
    have hwoven : Woven d (b ++ rest) (n + more) := by
      simpa using hb.weave (.nil d) hrest hrestSeparated
    have hboth : IsSeparated d (b ++ rest) := by
      cases b with
      | nil => exact hrestSeparated
      | cons c b => exact hseparated
    rw [List.append_assoc, Nat.add_assoc]
    exact ha.weave hpiece hwoven hboth

/-- Blocks with a clear text between them, which begins with a separator. -/
theorem intercalate {separator : List Char} (hclear : Clear d separator)
    (hseparated : IsSeparated d separator) (hnonempty : separator ≠ []) (hb : Block d b n)
    (times : Nat) : Block d (separator.intercalate (List.replicate times b)) (times * n) := by
  induction times with
  | zero =>
      rw [Nat.zero_mul]
      exact .text (.nil d)
  | succ times ih =>
      cases times with
      | zero =>
          rw [Nat.one_mul, List.replicate_one, List.intercalate_singleton]
          exact hb
      | succ times =>
          have hcount : (times + 1 + 1) * n = n + (times + 1) * n := by
            rw [Nat.succ_mul, Nat.add_comm]
          rw [hcount, intercalate_replicate_succ]
          exact hb.append (ih.prepend hclear) (hseparated.append hnonempty _)

/-- A block by itself is a template. -/
theorem takes {text : String} (hblock : Block d text.toList n) : Takes d text n :=
  takes_of_woven hblock.woven

end Block

end Template
end Listing.Sql

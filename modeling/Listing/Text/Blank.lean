/-
# Blank space

Which characters count as blank, and the three operations that depend on it: trimming a text,
cutting it into words, and skipping what leads it. Blank means the Unicode property White_Space,
so the no-break space and the ideographic space are blank and the zero-width space is not.
-/

namespace Listing.Text

/-- A character with the Unicode property White_Space. -/
def isBlank (c : Char) : Bool :=
  let n := c.toNat
  (0x09 ≤ n && n ≤ 0x0D) || n == 0x20 || n == 0x85 || n == 0xA0 || n == 0x1680 ||
    (0x2000 ≤ n && n ≤ 0x200A) || n == 0x2028 || n == 0x2029 || n == 0x202F || n == 0x205F ||
    n == 0x3000

/-- Add one character in front of the first of several pieces. -/
def growFirst (c : Char) : List (List Char) → List (List Char)
  | [] => [[c]]
  | piece :: pieces => (c :: piece) :: pieces

/-- Cut a text at every character that satisfies `cut`; the characters cut at are dropped. There
is always one piece more than there were cuts. -/
def splitWhere (cut : Char → Bool) : List Char → List (List Char)
  | [] => [[]]
  | c :: cs => if cut c then [] :: splitWhere cut cs else growFirst c (splitWhere cut cs)

/-- The text without the blanks that lead it. -/
def skipBlanks (cs : List Char) : List Char := cs.dropWhile isBlank

/-- The characters without leading and trailing blanks. -/
def trimChars (cs : List Char) : List Char :=
  (skipBlanks (skipBlanks cs).reverse).reverse

/-- The text without leading and trailing blanks. -/
def trim (s : String) : String := String.ofList (trimChars s.toList)

/-- The longest pieces of the text that hold no blank, in order. -/
def words (s : String) : List String :=
  ((splitWhere isBlank s.toList).filter (! ·.isEmpty)).map String.ofList

/-- Cut a text at every occurrence of one character. -/
def splitOnChar (separator : Char) (s : String) : List String :=
  (splitWhere (· == separator) s.toList).map String.ofList

/-- The trimmed, non-empty parts of a comma-separated list. -/
def commaItems (s : String) : List String :=
  ((splitOnChar ',' s).map trim).filter (! ·.isEmpty)

/-- Every character that the core library calls blank space is blank here as well. -/
theorem isBlank_of_isWhitespace {c : Char} (h : c.isWhitespace = true) : isBlank c = true := by
  simp only [Char.isWhitespace, Bool.or_eq_true, decide_eq_true_eq] at h
  rcases h with ((h | h) | h) | h <;> subst h <;> decide

theorem splitWhere_ne_nil (cut : Char → Bool) (cs : List Char) : splitWhere cut cs ≠ [] := by
  induction cs with
  | nil => simp [splitWhere]
  | cons c cs ih =>
    simp only [splitWhere]
    split
    · simp
    · cases h : splitWhere cut cs <;> simp [growFirst]

end Listing.Text

/-
# The meaning of patterns

The operators that look for a part of a text are compiled to patterns, and every store reads these
in a language of its own. A pattern of LIKE, of GLOB or of a wildcard query is a list of pieces,
each of them any text at all or one character of a set, and has to match the whole of a text. A
regular expression is matched wherever it fits, unless its anchors pin it to the start or to the end.

Stores differ in which characters they take to be equal, so a match compares characters after
`fold`: the identity where case counts, and lower case of the ASCII letters where it does not.

Of regular expressions only characters and anchors are read here. A pattern with any other sign,
such as a quantifier or a group, is not read at all, and neither is a pattern that breaks off within
an escape or a class. What is not read matches nothing.
-/
import Listing.Operator
import Mathlib.Data.List.Infix

namespace Listing

/-- What the operators that look for a part of a text ask of it: to start with the needle, to end
with it, to hold it, or to be it. No other operator asks for a part. -/
def Operator.Finds (op : Operator) (fold : Char → Char) (needle text : String) : Prop :=
  match op with
  | .startsWith | .istartsWith => needle.toList.map fold <+: text.toList.map fold
  | .endsWith | .iendsWith => needle.toList.map fold <:+ text.toList.map fold
  | .icontains => needle.toList.map fold <:+: text.toList.map fold
  | .iexact => needle.toList.map fold = text.toList.map fold
  | _ => False

instance (op : Operator) (fold : Char → Char) (needle text : String) :
    Decidable (op.Finds fold needle text) := by
  cases op <;> (dsimp only [Operator.Finds]; infer_instance)

namespace Text

/-- A set of characters, of which a pattern asks for one. -/
inductive CharSet
  | any
  /-- The characters that count as equal to this one. -/
  | char (c : Char)
  /-- The characters in one of some ranges, each given by its ends, or all others. -/
  | ranges (negated : Bool) (ends : List (Char × Char))
  deriving DecidableEq, Repr

def CharSet.holds (fold : Char → Char) : CharSet → Char → Bool
  | .any, _ => true
  | .char c, d => fold d == fold c
  | .ranges negated ends, d => negated != ends.any fun (low, high) => low ≤ d && d ≤ high

/-- A piece of a pattern. -/
inductive Piece
  /-- Any text, also none. -/
  | run
  /-- One character of a set. -/
  | one (set : CharSet)
  deriving DecidableEq, Repr

/-- Whether pieces match the whole of a text. -/
def Piece.matchAll (fold : Char → Char) : List Piece → List Char → Bool
  | [], cs => cs.isEmpty
  | .run :: pieces, cs => cs.tails.any (matchAll fold pieces)
  | .one _ :: _, [] => false
  | .one set :: pieces, c :: cs => set.holds fold c && matchAll fold pieces cs

/-- The signs of a pattern language in which the backslash is the escape character: the one for any
text, and the one for any character. -/
structure Signs where
  run : Char
  any : Char

namespace Signs

def like : Signs := ⟨'%', '_'⟩

def wildcard : Signs := ⟨'*', '?'⟩

variable (signs : Signs)

/-- What a character asks for that is not escaped. -/
def piece (c : Char) : Piece :=
  if c = signs.run then .run else if c = signs.any then .one .any else .one (.char c)

/-- The pieces of a pattern. The stores do not agree on a backslash at its end, which escapes
nothing. -/
def read? : List Char → Option (List Piece)
  | [] => some []
  | c :: cs =>
    if c = '\\' then match cs with
      | [] => none
      | d :: cs => (read? cs).map (.one (.char d) :: ·)
    else (read? cs).map (signs.piece c :: ·)

/-- Whether a pattern matches a text. -/
def accepts (fold : Char → Char) (pattern text : String) : Bool :=
  (signs.read? pattern.toList).any (Piece.matchAll fold · text.toList)

end Signs

namespace Glob

/-- The ranges that the text of a class gives. A minus sign after a character and before another one
spans the range from the one to the other; every other character is a range of its own. -/
def rangesFrom (before : Option Char) : List Char → List (Char × Char)
  | [] => []
  | [c] => [(c, c)]
  | c :: d :: cs => match before with
    | some low =>
      if c = '-' then (low, d) :: rangesFrom none cs else (c, c) :: rangesFrom (some c) (d :: cs)
    | none => (c, c) :: rangesFrom (some c) (d :: cs)

/-- The ranges of a class; a bracket that comes first is one of its characters. -/
def classRanges : List Char → List (Char × Char)
  | ']' :: cs => (']', ']') :: rangesFrom none cs
  | cs => rangesFrom none cs

/-- The set that a class stands for, given by what is between its brackets. -/
def classSet : List Char → CharSet
  | '^' :: cs => .ranges true (classRanges cs)
  | cs => .ranges false (classRanges cs)

/-- The pieces of a pattern, read from outside of classes or from inside of one of which some
characters were read. The bracket that comes first in a class does not close it. -/
def readFrom? : Option (List Char) → List Char → Option (List Piece)
  | none, [] => some []
  | some _, [] => none
  | none, c :: cs =>
    if c = '[' then readFrom? (some []) cs
    else (readFrom? none cs).map
      ((if c = '*' then .run else if c = '?' then .one .any else .one (.char c)) :: ·)
  | some seen, c :: cs =>
    if c = ']' ∧ seen ≠ [] ∧ seen ≠ ['^'] then
      (readFrom? none cs).map (.one (classSet seen) :: ·)
    else readFrom? (some (seen ++ [c])) cs

/-- Whether a pattern of GLOB, for which case counts, matches a text. -/
def accepts (pattern text : String) : Bool :=
  (readFrom? none pattern.toList).any (Piece.matchAll id · text.toList)

/-- A class may name ranges, and a circumflex in front denies it. -/
example : accepts "[a-c][^x-z][]]*" "b9] and more" = true := by decide

end Glob

namespace Regex

/-- A part of a regular expression. -/
inductive Atom
  /-- The start of the text. -/
  | start
  /-- The end of the text, or the place before a line feed that ends it. -/
  | stop
  | char (c : Char)
  deriving DecidableEq, Repr

/-- A character that is the sign of what is not read. -/
def isSign (c : Char) : Bool := ['.', '[', '|', '(', ')', '?', '*', '+', '{'].contains c

/-- The atoms of a regular expression. A backslash makes the character after it stand for itself,
unless that is a letter or a digit. -/
def read? : List Char → Option (List Atom)
  | [] => some []
  | c :: cs =>
    if c = '\\' then match cs with
      | [] => none
      | d :: cs => if d.isAlphanum then none else (read? cs).map (.char d :: ·)
    else if isSign c then none
    else (read? cs).map ((if c = '^' then .start else if c = '$' then .stop else .char c) :: ·)

/-- How the options of a match fold characters. -/
def foldOf? (options : String) : Option (Char → Char) :=
  if options = "" then some id else if options = "i" then some Char.toLower else none

/-- Whether atoms match from a place on, which may be the start of the text. -/
def matchesFrom (fold : Char → Char) : Bool → List Atom → List Char → Bool
  | _, [], _ => true
  | first, .start :: atoms, cs => first && matchesFrom fold first atoms cs
  | first, .stop :: atoms, cs => (cs = [] || cs = ['\n']) && matchesFrom fold first atoms cs
  | _, .char _ :: _, [] => false
  | _, .char c :: atoms, d :: cs => fold d == fold c && matchesFrom fold false atoms cs

/-- Whether atoms match at a place or at a later one. -/
def matchesIn (fold : Char → Char) (atoms : List Atom) : Bool → List Char → Bool
  | first, [] => matchesFrom fold first atoms []
  | first, c :: cs => matchesFrom fold first atoms (c :: cs) || matchesIn fold atoms false cs

/-- Whether a regular expression matches a text. -/
def accepts (pattern options text : String) : Bool :=
  match foldOf? options, read? pattern.toList with
  | some fold, some atoms => matchesIn fold atoms true text.toList
  | _, _ => false

end Regex
end Text
end Listing

/-
# Templates

A template is SQL text with holes for expressions, for what the expression language cannot say. A
hole is written as a pair of braces. The dialect gives the holes its own mark, numbered on
Postgres; the marked text is then read from left to right, and every mark outside of quotes and
words becomes the expression it stands for. Inside quotes a mark is text, a backslash hides the
character after it, and a doubled quote does not end the quotation. A word begins with a letter or
a digit, and a dollar sign inside of it is one of its characters. A word that follows a numbered
mark is its number. A doubled mark is the mark itself.
-/
import Listing.Number.Integer
import Listing.Sql.Dialect
import Listing.Text.Alphabetic
import Listing.Text.Blank

namespace Listing.Sql

/-- The mark of a bound value or an expression. -/
def Dialect.mark : Dialect → Char
  | .postgres => '$'
  | .mysql | .sqlite => '?'

/-- Whether marks carry the position of what they stand for. -/
def Dialect.isNumbered : Dialect → Bool
  | .postgres => true
  | .mysql | .sqlite => false

namespace Template

/-- A piece of a template: a character of SQL, or the expression at a position. -/
inductive Part
  | text (c : Char)
  | hole (position : Nat)
  deriving DecidableEq, Repr

/-- Cut a template at its holes. -/
def cut : List Char → List (List Char)
  | [] => [[]]
  | '{' :: '}' :: cs => [] :: cut cs
  | c :: cs => Text.growFirst c (cut cs)

/-- The mark of the hole at a position, counted from one. -/
def markAt (d : Dialect) (position : Nat) : List Char :=
  if d.isNumbered then d.mark :: Number.digits position else [d.mark]

/-- The pieces between holes with the marks of the dialect in between, from a position on. -/
def joinMarked (d : Dialect) (position : Nat) : List (List Char) → List Char
  | [] => []
  | [piece] => piece
  | piece :: pieces => piece ++ markAt d position ++ joinMarked d (position + 1) pieces

/-- The text of a template with the marks of a dialect. -/
def marked (d : Dialect) (template : String) : List Char :=
  joinMarked d 1 (cut template.toList)

/-- Where the reader of marked text stands. -/
inductive Mode
  | plain
  | word
  /-- In a quotation that began with `quote`; `hidden` after a backslash. -/
  | quoted (quote : Char) (hidden : Bool)
  /-- After a quote that ends a quotation unless it is doubled. -/
  | closed (quote : Char)
  /-- After a mark. -/
  | mark
  /-- In the word after a mark; the characters so far, last one first. -/
  | number (seen : List Char)

/-- A character that begins a quotation. -/
def opensQuote (c : Char) : Bool := c == '`' || c == '[' || c == '\'' || c == '"'

/-- The character that ends a quotation. -/
def closingQuote (quote : Char) : Char := if quote = '[' then ']' else quote

/-- A character that begins a word: a letter of any script, or an ASCII digit. -/
def beginsWord (c : Char) : Bool := Text.isAlphabetic c || Number.isDigit c

/-- A character inside of a word. -/
def isWordChar (c : Char) : Bool := beginsWord c || c == '_' || c == '$'

/-- The hole of a numbered mark; none where the characters are no position. -/
def numberedHole (seen : List Char) : List Part :=
  match Number.readDigits? seen.reverse with
  | some (n + 1) => [.hole n]
  | _ => []

/-- Read a character outside of quotations and words. -/
def plainStep (d : Dialect) (c : Char) : List Part × Mode :=
  if c = d.mark then ([], .mark)
  else if opensQuote c then ([.text c], .quoted c false)
  else if beginsWord c then ([.text c], .word)
  else ([.text c], .plain)

/-- Read one character: the parts it completes, where the reader stands, and how many marks
without a number there were so far. -/
def step (d : Dialect) (count : Nat) : Mode → Char → List Part × Mode × Nat
  | .plain, c => let (parts, mode) := plainStep d c; (parts, mode, count)
  | .word, c =>
    if isWordChar c then ([.text c], .word, count)
    else let (parts, mode) := plainStep d c; (parts, mode, count)
  | .quoted quote hidden, c =>
    if c = closingQuote quote ∧ !hidden then ([.text c], .closed quote, count)
    else ([.text c], .quoted quote (!hidden && c == '\\'), count)
  | .closed quote, c =>
    if c = quote ∧ quote ≠ '[' then ([.text c], .quoted quote false, count)
    else let (parts, mode) := plainStep d c; (parts, mode, count)
  | .mark, c =>
    if c = d.mark then ([.text c], .plain, count)
    else if d.isNumbered && beginsWord c then ([], .number [c], count)
    else let (parts, mode) := plainStep d c; (.hole count :: parts, mode, count + 1)
  | .number seen, c =>
    if isWordChar c then ([], .number (c :: seen), count)
    else let (parts, mode) := plainStep d c; (numberedHole seen ++ parts, mode, count)

/-- Read marked text from a mode on. -/
def scan (d : Dialect) (count : Nat) : Mode → List Char → List Part
  | .mark, [] => [.hole count]
  | .number seen, [] => numberedHole seen
  | _, [] => []
  | mode, c :: cs =>
    let (parts, mode, count) := step d count mode c
    parts ++ scan d count mode cs

/-- The parts of a template in a dialect. -/
def parts (d : Dialect) (template : String) : List Part := scan d 0 .plain (marked d template)

end Template
end Listing.Sql

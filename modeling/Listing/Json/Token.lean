/-
# JSON tokens

The lexical part of JSON text, read in one pass over its characters by a small machine: it is
either between tokens, inside a word (a number or a literal), or at some point of a string. The
rules are strict: no raw control characters in strings, no lone surrogates in escapes, no leading
zeros, a digit on both sides of a point, and no blank but the four of the format.
-/
import Listing.Json.Number
import Listing.Number.Hex

namespace Listing.Json

inductive Token
  | openArray | closeArray | openObject | closeObject | colon | comma
  /-- A string. -/
  | text (value : String)
  /-- A number or one of the three literals. -/
  | atom (value : Json)

/-- Where the machine stands. `seen` holds the characters of the token so far, last one first. -/
inductive Scan
  | between
  | word (seen : List Char)
  | text (seen : List Char)
  /-- After a backslash. -/
  | escape (seen : List Char)
  /-- Inside the four digits of a code unit; `high` is a leading surrogate waiting for its pair. -/
  | unit (seen : List Char) (high : Option Nat) (missing value : Nat)
  /-- After a leading surrogate: a backslash must follow. -/
  | pairBackslash (seen : List Char) (high : Nat)
  /-- After a leading surrogate and a backslash: `u` must follow. -/
  | pairMark (seen : List Char) (high : Nat)

/-- The value that a word stands for: one of the three literals, or a number. -/
def wordValue? (cs : List Char) : Option Json :=
  if cs = ['n', 'u', 'l', 'l'] then some .null
  else if cs = ['t', 'r', 'u', 'e'] then some (.bool true)
  else if cs = ['f', 'a', 'l', 's', 'e'] then some (.bool false)
  else number? cs

/-- A character that belongs to a number or a literal. -/
def isWordChar (c : Char) : Bool :=
  Number.isDigit c || ('a' ≤ c && c ≤ 'z') || ('A' ≤ c && c ≤ 'Z') || c == '-' || c == '+' ||
    c == '.'

/-- A character that may stand between tokens. -/
def isSpace (c : Char) : Bool := c == ' ' || c == '\t' || c == '\n' || c == '\r'

/-- The token that is one mark. -/
def mark? (c : Char) : Option Token :=
  if c = '[' then some .openArray
  else if c = ']' then some .closeArray
  else if c = '{' then some .openObject
  else if c = '}' then some .closeObject
  else if c = ':' then some .colon
  else if c = ',' then some .comma
  else none

/-- Read a character between tokens; `done` are the tokens before it, last one first. -/
def startToken (done : List Token) (c : Char) : Option (List Token × Scan) :=
  if isSpace c then some (done, .between)
  else if c = '"' then some (done, .text [])
  else if isWordChar c then some (done, .word [c])
  else (mark? c).map fun token => (token :: done, .between)

/-- The character that a one-letter escape stands for. -/
def simpleEscape? (c : Char) : Option Char :=
  if c = '"' || c = '\\' || c = '/' then some c
  else if c = 'b' then some (Char.ofNat 8)
  else if c = 'f' then some (Char.ofNat 12)
  else if c = 'n' then some '\n'
  else if c = 'r' then some '\r'
  else if c = 't' then some '\t'
  else none

/-- Go on after the last digit of a code unit: a leading surrogate waits for a trailing one, and
the two together are one character. -/
def finishUnit (seen : List Char) (high : Option Nat) (value : Nat) : Option Scan :=
  let leading := 0xD800 ≤ value && value ≤ 0xDBFF
  let trailing := 0xDC00 ≤ value && value ≤ 0xDFFF
  match high with
  | none =>
    if leading then some (.pairBackslash seen value)
    else if trailing then none
    else some (.text (Char.ofNat value :: seen))
  | some lead =>
    if trailing then
      some (.text (Char.ofNat (0x10000 + (lead - 0xD800) * 0x400 + (value - 0xDC00)) :: seen))
    else none

/-- Read one character. -/
def scanStep (done : List Token) : Scan → Char → Option (List Token × Scan)
  | .between, c => startToken done c
  | .word seen, c =>
    if isWordChar c then some (done, .word (c :: seen))
    else do
      let value ← wordValue? seen.reverse
      startToken (.atom value :: done) c
  | .text seen, c =>
    if c = '"' then some (.text (String.ofList seen.reverse) :: done, .between)
    else if c = '\\' then some (done, .escape seen)
    else if c.toNat < 0x20 then none
    else some (done, .text (c :: seen))
  | .escape seen, c =>
    if c = 'u' then some (done, .unit seen none 4 0)
    else (simpleEscape? c).map fun e => (done, .text (e :: seen))
  | .unit seen high missing value, c => do
    let digit ← Number.hexValue? c
    let value := value * 16 + digit
    if missing ≤ 1 then (finishUnit seen high value).map fun state => (done, state)
    else some (done, .unit seen high (missing - 1) value)
  | .pairBackslash seen high, c => if c = '\\' then some (done, .pairMark seen high) else none
  | .pairMark seen high, c => if c = 'u' then some (done, .unit seen (some high) 4 0) else none

/-- Read all characters, and the end of the text after them. -/
def scanFrom (done : List Token) : Scan → List Char → Option (List Token)
  | .between, [] => some done.reverse
  | .word seen, [] => (wordValue? seen.reverse).map fun value => (Token.atom value :: done).reverse
  | _, [] => none
  | state, c :: cs =>
    match scanStep done state c with
    | none => none
    | some (done, state) => scanFrom done state cs

/-- The tokens of a text; none where the text has a lexical fault. -/
def tokens? (s : String) : Option (List Token) := scanFrom [] .between s.toList

end Listing.Json

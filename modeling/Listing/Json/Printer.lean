/-
# Writing JSON

The compact form: no space between tokens, object entries in their order, and in strings only the
quote, the backslash and the control characters escaped.
-/
import Listing.Json.Basic
import Listing.Number.Hex
import Listing.Number.Shortest

namespace Listing.Json

/-- The escape of one control character. -/
def controlEscape (c : Char) : List Char :=
  let n := c.toNat
  if n = 8 then ['\\', 'b']
  else if n = 9 then ['\\', 't']
  else if n = 10 then ['\\', 'n']
  else if n = 12 then ['\\', 'f']
  else if n = 13 then ['\\', 'r']
  else ['\\', 'u'] ++ Number.hexDigits n 4

/-- A character as it stands in a JSON string. -/
def escapeChar (c : Char) : List Char :=
  if c = '"' then ['\\', '"']
  else if c = '\\' then ['\\', '\\']
  else if c.toNat < 0x20 then controlEscape c
  else [c]

/-- A text between quotes. -/
def quoted (s : String) : List Char := '"' :: s.toList.flatMap escapeChar ++ ['"']

mutual
/-- The characters of a value. -/
def chars : Json → List Char
  | .null => ['n', 'u', 'l', 'l']
  | .bool true => ['t', 'r', 'u', 'e']
  | .bool false => ['f', 'a', 'l', 's', 'e']
  | .int n => (Number.integerText n).toList
  | .double x => x.jsonText.toList
  | .string s => quoted s
  | .array [] => ['[', ']']
  | .array (item :: items) => '[' :: chars item ++ itemChars items
  | .object [] => ['{', '}']
  | .object ((key, value) :: entries) =>
    '{' :: quoted key ++ ':' :: chars value ++ entryChars entries

/-- The items after the first of an array, and the end of the array. -/
def itemChars : List Json → List Char
  | [] => [']']
  | item :: items => ',' :: chars item ++ itemChars items

/-- The entries after the first of an object, and the end of the object. -/
def entryChars : List (String × Json) → List Char
  | [] => ['}']
  | (key, value) :: entries => ',' :: quoted key ++ ':' :: chars value ++ entryChars entries
end

/-- The compact text of a value. -/
def render (value : Json) : String := String.ofList (chars value)

/-- The text a value stands for where a text is wanted: a string by itself, all else as JSON. -/
def text : Json → String
  | .string s => s
  | value => render value

end Listing.Json

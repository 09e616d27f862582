/-
# Query strings

The pairs of a query string in the form encoding of the web. Pieces between ampersands are pairs;
empty pieces are none. A piece without an equals sign is a key with an empty value. In keys and
values a plus sign is a space, a percent sign with two hexadecimal digits is the byte they write,
and any other percent sign stands for itself; the bytes are then read as UTF-8.
-/
import Listing.Number.Hex
import Listing.Text.Utf8

namespace Listing.Form

/-- The byte of an ASCII character. -/
def byte (c : Char) : UInt8 := c.toNat.toUInt8

/-- Cut a list of bytes at every occurrence of a byte. -/
def splitOn (separator : UInt8) : List UInt8 → List (List UInt8)
  | [] => [[]]
  | b :: bytes =>
    if b = separator then [] :: splitOn separator bytes
    else match splitOn separator bytes with
      | [] => [[b]]
      | piece :: pieces => (b :: piece) :: pieces

/-- The value of a byte that is a hexadecimal digit. -/
def hexByte? (b : UInt8) : Option Nat := Number.hexValue? (Char.ofNat b.toNat)

/-- The byte written by two hexadecimal digits at the head of a list. -/
def escapedByte? : List UInt8 → Option UInt8
  | high :: low :: _ => match hexByte? high, hexByte? low with
    | some h, some l => some (16 * h + l).toUInt8
    | _, _ => none
  | _ => none

/-- Resolve plus signs and percent escapes after passing over `skip` bytes, which are the digits of
an escape already resolved. -/
def unescapeAfter : Nat → List UInt8 → List UInt8
  | _, [] => []
  | skip + 1, _ :: rest => unescapeAfter skip rest
  | 0, b :: rest =>
    if b = byte '+' then byte ' ' :: unescapeAfter 0 rest
    else if b = byte '%' then
      match escapedByte? rest with
      | some value => value :: unescapeAfter 2 rest
      | none => b :: unescapeAfter 0 rest
    else b :: unescapeAfter 0 rest

/-- Resolve plus signs and percent escapes. -/
def unescape (bytes : List UInt8) : List UInt8 := unescapeAfter 0 bytes

/-- The text of an escaped key or value. -/
def decodePart (bytes : List UInt8) : String := Text.Utf8.decode (unescape bytes)

/-- The key and value of a piece, which are parted by its first equals sign. -/
def decodePair (piece : List UInt8) : String × String :=
  let key := piece.takeWhile (· != byte '=')
  (decodePart key, decodePart (piece.drop (key.length + 1)))

/-- The pairs of a query string, which may begin with a question mark. -/
def decode (query : String) : List (String × String) :=
  let bytes := match Text.Utf8.encode query with
    | b :: rest => if b = byte '?' then rest else b :: rest
    | [] => []
  ((splitOn (byte '&') bytes).filter (! ·.isEmpty)).map decodePair

end Listing.Form

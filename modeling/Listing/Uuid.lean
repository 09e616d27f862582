/-
# UUIDs

A UUID is a number of 128 bits, so its order is the order of its bytes. It is read from 32
hexadecimal digits, with hyphens after the digits 8, 12, 16 and 20 or with none; the hyphenated
form may stand in braces or after `urn:uuid:`. It is written with hyphens and small letters.
-/
import Listing.Number.Hex
import Listing.Text.Upper

namespace Listing

structure Uuid where
  value : BitVec 128
  deriving DecidableEq, Repr, Inhabited

namespace Uuid

/-- Exactly 32 hexadecimal digits. -/
def ofDigits? (cs : List Char) : Option Uuid :=
  if cs.length = 32 then (Number.readHex? cs).map fun n => ⟨BitVec.ofNat 128 n⟩ else none

/-- The groups 8-4-4-4-12 with a hyphen between them. -/
def ofHyphenated? (cs : List Char) : Option Uuid :=
  if cs.length = 36 ∧ cs[8]? = some '-' ∧ cs[13]? = some '-' ∧ cs[18]? = some '-' ∧
      cs[23]? = some '-' then
    ofDigits? (cs.take 8 ++ (cs.drop 9).take 4 ++ (cs.drop 14).take 4 ++ (cs.drop 19).take 4 ++
      cs.drop 24)
  else none

/-- What precedes the hyphenated form in a uniform resource name. -/
def urnScheme : String := "urn:uuid:"

/-- Read a UUID in one of its forms. -/
def read? (s : String) : Option Uuid :=
  let cs := s.toList
  if cs.length = 32 then ofDigits? cs
  else if cs.length = 36 then ofHyphenated? cs
  else if cs.length = 38 then
    (if cs.head? = some '{' ∧ cs.getLast? = some '}' then ofHyphenated? ((cs.drop 1).take 36)
    else none)
  else if Text.lowerAscii (String.ofList (cs.take 9)) = urnScheme then ofHyphenated? (cs.drop 9)
  else none

/-- The hyphenated form in small letters. -/
def text (u : Uuid) : String :=
  let ds := Number.hexDigits u.value.toNat 32
  String.ofList (ds.take 8 ++ '-' :: (ds.drop 8).take 4 ++ '-' :: (ds.drop 12).take 4 ++
    '-' :: (ds.drop 16).take 4 ++ '-' :: ds.drop 20)

/-- The order of the bytes. -/
def compare (a b : Uuid) : Ordering := Ord.compare a.value.toNat b.value.toNat

end Uuid
end Listing

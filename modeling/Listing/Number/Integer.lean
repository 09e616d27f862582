/-
# Integers as text

Decimal digits, written and read. A text is an integer when it has an optional sign, at least one
ASCII digit and nothing else; an unsigned integer allows no minus sign, not even on zero. Readers
of a fixed range refuse a number outside of it.
-/
import Listing.Number.Power

namespace Listing.Number

/-- One of the ten ASCII digits. -/
def isDigit (c : Char) : Bool := 48 ≤ c.toNat && c.toNat ≤ 57

/-- The value of an ASCII digit. -/
def digitValue (c : Char) : Nat := c.toNat - 48

/-- The number that decimal digits write, after those already read into `n`. -/
def ofDigitsFrom (n : Nat) (digits : List Char) : Nat :=
  digits.foldl (fun n c => 10 * n + digitValue c) n

/-- The number that decimal digits write. -/
def ofDigits (digits : List Char) : Nat := ofDigitsFrom 0 digits

/-- The decimal digits of a number, without leading zeros; zero is one digit. -/
def digits (n : Nat) : List Char := Nat.toDigits 10 n

/-- The decimal text of an integer, with a minus sign in front of a negative one. -/
def integerText (n : Int) : String :=
  if n < 0 then String.ofList ('-' :: digits n.natAbs) else String.ofList (digits n.natAbs)

/-- A natural number written with at least `width` digits. -/
def padded (width n : Nat) : List Char :=
  let ds := digits n
  List.replicate (width - ds.length) '0' ++ ds

/-- The number written by a non-empty text of digits. -/
def readDigits? (cs : List Char) : Option Nat :=
  if cs.isEmpty || !cs.all isDigit then none else some (ofDigits cs)

/-- The range of a signed 64-bit integer. -/
def fitsSigned (n : Int) : Bool := -(twoTo 63 : Int) ≤ n && n < twoTo 63

/-- The range of an unsigned 64-bit integer. -/
def fitsUnsigned (n : Int) : Bool := 0 ≤ n && n < twoTo 64

/-- Read a signed 64-bit integer: an optional sign, then digits. -/
def readSigned? (s : String) : Option Int :=
  let number : Option Int := match s.toList with
    | '-' :: cs => (readDigits? cs).map fun n => -(n : Int)
    | '+' :: cs => (readDigits? cs).map fun n => (n : Int)
    | cs => (readDigits? cs).map fun n => (n : Int)
  number.filter fitsSigned

/-- Read an unsigned 64-bit integer: an optional plus sign, then digits. -/
def readUnsigned? (s : String) : Option Nat :=
  let number := match s.toList with
    | '+' :: cs => readDigits? cs
    | cs => readDigits? cs
  number.filter fun n => fitsUnsigned n

end Listing.Number

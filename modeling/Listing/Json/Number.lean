/-
# Numbers in JSON text

An integer of 64 bits is read as it is. Every other number is a double, and is read in a few steps
of which each rounds: the leading digits that fit 64 bits become a double, digits that no longer
fit count as powers of ten before the point and not at all behind it, and the double is multiplied
or divided by the power of ten, which is a double itself. The result is the nearest double for
numbers of up to fifteen digits and small exponents, and at times a neighbour of it for others.
-/
import Listing.Json.Basic

namespace Listing.Json

/-- Append digits to an integer as long as it fits 64 bits: the integer, and how many digits are
left over. -/
def appendDigits (n : Nat) : List Char → Nat × Nat
  | [] => (n, 0)
  | c :: cs =>
    let next := Number.ofDigitsFrom n [c]
    if Number.fitsUnsigned next then appendDigits next cs else (n, cs.length + 1)

/-- The greatest power of ten that is a double. -/
def maxPower : Nat := 308

/-- A power of ten as a double. -/
def powerOfTen (n : Nat) : Double := (Double.ofRatio? false (Number.tenTo n) 1).getD (.zero false)

/-- Multiply by a power of ten; none when the product is too large. -/
def timesPower? (x : Double) (n : Nat) : Option Double :=
  if n ≤ maxPower then x.mul? (powerOfTen n)
  else if x.significand = 0 then some x
  else none

/-- Divide by a power of ten, in two steps where it is no double. Of an integer of 64 bits, two
divisions by the greatest power leave nothing. -/
def overPower? (x : Double) (n : Nat) : Option Double :=
  if n ≤ maxPower then x.div? (powerOfTen n)
  else if n ≤ 2 * maxPower then
    (x.div? (powerOfTen maxPower)).bind (·.div? (powerOfTen (n - maxPower)))
  else some (.zero x.negative)

/-- The double for an integer of 64 bits times a power of ten. -/
def scaled? (negative : Bool) (n : Nat) (exponent : Int) : Option Double := do
  let x ← Double.ofRatio? negative n 1
  if 0 ≤ exponent then timesPower? x exponent.toNat else overPower? x (-exponent).toNat

/-- The double for the digits before and after the point and the exponent part. -/
def decimal? (negative : Bool) (whole fraction exponent : List Char) : Option Double := do
  let e ← Double.readExponent? exponent
  let (n, above) := appendDigits 0 whole
  let (n, ignored) := appendDigits n fraction
  scaled? negative n (e + above - (fraction.length - ignored : Nat))

/-- The number written by an integer literal: an integer if it is one of 64 bits. Minus zero is a
double, because no integer is. -/
def wholeNumber? (negative : Bool) (digits : List Char) : Option Json :=
  let n : Int := Number.ofDigits digits
  let value := if negative then -n else n
  if (negative && n != 0 && Number.fitsSigned value) || (!negative && Number.fitsUnsigned value)
  then some (.int value)
  else (decimal? negative digits [] []).map .double

/-- The number written by unsigned characters. -/
def unsignedNumber? (negative : Bool) (cs : List Char) : Option Json :=
  let whole := cs.takeWhile Number.isDigit
  let rest := cs.dropWhile Number.isDigit
  if whole.isEmpty || (whole.head? == some '0' && whole.length != 1) then none
  else match rest with
    | [] => wholeNumber? negative whole
    | '.' :: tail =>
      let fraction := tail.takeWhile Number.isDigit
      if fraction.isEmpty then none
      else (decimal? negative whole fraction (tail.dropWhile Number.isDigit)).map .double
    | _ => (decimal? negative whole [] rest).map .double

/-- The number that characters write, with an optional minus sign. -/
def number? : List Char → Option Json
  | '-' :: cs => unsignedNumber? true cs
  | cs => unsignedNumber? false cs

end Listing.Json

/-
# Finite double-precision numbers

A double is held as a sign and the integers `m` and `e` of its magnitude `m * 2 ^ e`, so that all
arithmetic on it is exact integer arithmetic. The numbers of the format are those with
`m < 2 ^ 53` and `-1074 ≤ e ≤ 971` where `m` uses all 53 bits unless `e` is the least exponent;
zero is `m = 0` at the least exponent, with either sign. There is no infinity: a value too large
for the format has no double.
-/
import Listing.Number.Integer

namespace Listing

/-- The finite number `± significand * 2 ^ exponent` of binary double precision. -/
structure Double where
  negative : Bool
  significand : Nat
  exponent : Int
  deriving DecidableEq, Repr, Inhabited

namespace Double

open Number (twoTo tenTo)

/-- The exponent of the numbers next to zero. -/
def leastExponent : Int := -1074

/-- The exponent of the largest numbers. -/
def greatestExponent : Int := 971

/-- Zero with a sign. -/
def zero (negative : Bool) : Double := ⟨negative, 0, leastExponent⟩

/-- The integer nearest to `num / den`; of two that are equally near, the even one. -/
def roundDiv (num den : Nat) : Nat :=
  let q := num / den
  let r := num % den
  if 2 * r < den then q else if den < 2 * r then q + 1 else q + q % 2

/-- Numerator and denominator of `num / den / 2 ^ e`. -/
def scaleDown (num den : Nat) (e : Int) : Nat × Nat :=
  if 0 ≤ e then (num, den * twoTo e.toNat) else (num * twoTo (-e).toNat, den)

/-- The exponent at which `num / den` has a significand of 53 bits, or the least exponent where
that is larger. The quotient of the powers of two below numerator and denominator is off by less
than a factor of two, so one comparison settles it. -/
def exponentFor (num den : Nat) : Int :=
  let e := (num.log2 : Int) - den.log2 - 52
  let (n, d) := scaleDown num den e
  max (if n / d < twoTo 52 then e - 1 else e) leastExponent

/-- The double nearest to the positive ratio `num / den`, ties to the even significand; none when
that is beyond the largest double. -/
def ofRatio? (negative : Bool) (num den : Nat) : Option Double :=
  if num = 0 then some (zero negative)
  else
    let e := exponentFor num den
    let (n, d) := scaleDown num den e
    let m := roundDiv n d
    let rounded : Double := if m = twoTo 53 then ⟨negative, twoTo 52, e + 1⟩ else ⟨negative, m, e⟩
    if greatestExponent < rounded.exponent then none else some rounded

/-- The double nearest to `mantissa * 10 ^ exponent`; none when it is too large. The two bounds
keep the powers of ten small: what lies outside of them is too large, or rounds to zero. -/
def ofDecimal? (negative : Bool) (mantissa : Nat) (exponent : Int) : Option Double :=
  let magnitude := ((Number.digits mantissa).length : Int) + exponent
  if mantissa = 0 || magnitude < -330 then some (zero negative)
  else if 310 < magnitude then none
  else if 0 ≤ exponent then ofRatio? negative (mantissa * tenTo exponent.toNat) 1
  else ofRatio? negative mantissa (tenTo (-exponent).toNat)

/-- The double nearest to an integer of 64 bits. -/
def ofInt (n : Int) : Double := (ofRatio? (n < 0) n.natAbs 1).getD (zero false)

/-- The signed integer `± significand * 2 ^ (exponent - low)`, for an exponent not below `low`. -/
def scaledTo (low : Int) (x : Double) : Int :=
  let magnitude : Int := x.significand * twoTo (x.exponent - low).toNat
  if x.negative then -magnitude else magnitude

/-- The magnitude as a numerator and a denominator. -/
def ratio (x : Double) : Nat × Nat :=
  (x.significand * twoTo x.exponent.toNat, twoTo (-x.exponent).toNat)

/-- The double nearest to a product; none when it is too large. -/
def mul? (x y : Double) : Option Double :=
  ofRatio? (x.negative != y.negative) (x.ratio.1 * y.ratio.1) (x.ratio.2 * y.ratio.2)

/-- The double nearest to a quotient; none when it is too large. The divisor is not zero. -/
def div? (x y : Double) : Option Double :=
  ofRatio? (x.negative != y.negative) (x.ratio.1 * y.ratio.2) (x.ratio.2 * y.ratio.1)

/-- Numerical order. The two zeros are equal. -/
def compare (x y : Double) : Ordering :=
  let low := min x.exponent y.exponent
  Ord.compare (x.scaledTo low) (y.scaledTo low)

/-- The integer that a double is, if it is one. -/
def toInt? (x : Double) : Option Int :=
  let magnitude? : Option Nat :=
    if 0 ≤ x.exponent then some (x.significand * twoTo x.exponent.toNat)
    else
      let d := twoTo (-x.exponent).toNat
      if x.significand % d = 0 then some (x.significand / d) else none
  magnitude?.map fun n => if x.negative then -(n : Int) else n

/-- Read an unsigned decimal exponent part: nothing, or `e` or `E`, an optional sign, digits. -/
def readExponent? : List Char → Option Int
  | [] => some 0
  | mark :: cs =>
    if mark = 'e' || mark = 'E' then
      match cs with
      | '-' :: ds => (Number.readDigits? ds).map fun n => -(n : Int)
      | '+' :: ds => (Number.readDigits? ds).map fun n => (n : Int)
      | ds => (Number.readDigits? ds).map fun n => (n : Int)
    else none

/-- The double with the given digits before and after the point and the given exponent part. -/
def ofParts? (negative : Bool) (whole fraction exponent : List Char) : Option Double := do
  let e ← readExponent? exponent
  ofDecimal? negative (Number.ofDigits (whole ++ fraction)) (e - fraction.length)

/-- Read an unsigned decimal: digits with an optional point, at least one digit in all, and an
optional exponent. The point may lead or trail. -/
def readUnsigned? (negative : Bool) (cs : List Char) : Option Double :=
  let whole := cs.takeWhile Number.isDigit
  let rest := cs.dropWhile Number.isDigit
  match rest with
  | '.' :: tail =>
    let fraction := tail.takeWhile Number.isDigit
    if whole.isEmpty && fraction.isEmpty then none
    else ofParts? negative whole fraction (tail.dropWhile Number.isDigit)
  | _ => if whole.isEmpty then none else ofParts? negative whole [] rest

/-- Read a decimal with an optional sign. Words for infinity and for no number are refused, and so
is a number too large for a double. -/
def read? (s : String) : Option Double :=
  match s.toList with
  | '-' :: cs => readUnsigned? true cs
  | '+' :: cs => readUnsigned? false cs
  | cs => readUnsigned? false cs

end Double
end Listing

/-
# The shortest decimal of a double

Of all decimals that read back as a given double, the one with the fewest digits, and of those the
nearest. Every decimal in the interval of reals that round to the double reads back; the ends of
the interval count when the significand is even. If some decimal of `p` digits lies in it, so does
one of the two neighbours of the double on the grid of `p` digits, so only these are tried. A double
can lie exactly in the middle between the two; each format says which one it then takes.
-/
import Listing.Number.Double

namespace Listing.Double

open Number (twoTo tenTo)

/-- A positive decimal `mantissa * 10 ^ exponent`. -/
structure Decimal where
  mantissa : Nat
  exponent : Int
  deriving DecidableEq, Repr, Inhabited

/-- Which of two decimals is taken that are equally near. -/
inductive Tie
  /-- The one with the even last digit. -/
  | toEven
  /-- The one farther from zero. -/
  | awayFromZero
  deriving DecidableEq, Repr

/-- Order of `c * 10 ^ k` and `l * 2 ^ e`, by cross-multiplying with the negative powers. -/
def compareScaled (c : Nat) (k : Int) (l : Nat) (e : Int) : Ordering :=
  Ord.compare (c * tenTo k.toNat * twoTo (-e).toNat) (l * twoTo e.toNat * tenTo (-k).toNat)

/-- Four times the distance from the significand down to the end of the interval, in units of the
last bit: the gap below a power of two is half as wide. -/
def gapBelow (x : Double) : Nat :=
  if x.significand = twoTo 52 ∧ leastExponent < x.exponent then 1 else 2

/-- Whether `c * 10 ^ k` rounds to the magnitude of `x`. -/
def readsBack (x : Double) (c : Nat) (k : Int) : Bool :=
  let low := compareScaled c k (4 * x.significand - gapBelow x) (x.exponent - 2)
  let high := compareScaled c k (4 * x.significand + 2) (x.exponent - 2)
  if x.significand % 2 = 0 then low != .lt && high != .gt else low == .gt && high == .lt

/-- The exponent of the leading decimal digit of a positive double. -/
def leadingExponent (x : Double) : Int :=
  let num := x.significand * twoTo x.exponent.toNat
  let den := twoTo (-x.exponent).toNat
  let guess := ((Number.digits num).length : Int) - (Number.digits den).length
  if compareScaled 1 guess x.significand x.exponent == .gt then guess - 1 else guess

/-- Whether `below` is a better approximation than `below + 1` of what exceeds it by the fraction
`rest / den`. -/
def Tie.prefersBelow (tie : Tie) (below rest den : Nat) : Bool :=
  if 2 * rest = den then tie = .toEven && below % 2 = 0 else 2 * rest < den

/-- The better neighbour of a positive double on the grid of `places` significant digits, if one of
the two reads back. -/
def neighbour? (tie : Tie) (x : Double) (places : Nat) : Option Decimal :=
  let k := leadingExponent x - (places - 1)
  let num := x.significand * twoTo x.exponent.toNat * tenTo (-k).toNat
  let den := twoTo (-x.exponent).toNat * tenTo k.toNat
  let below := num / den
  let order :=
    if tie.prefersBelow below (num % den) den then [below, below + 1] else [below + 1, below]
  (order.find? (readsBack x · k)).map fun c => ⟨c, k⟩

/-- A decimal without trailing zeros in its mantissa; `fuel` bounds the zeros removed. -/
def Decimal.strip (d : Decimal) : Nat → Decimal
  | 0 => d
  | fuel + 1 =>
    if d.mantissa % 10 = 0 then Decimal.strip ⟨d.mantissa / 10, d.exponent + 1⟩ fuel else d

/-- The shortest decimal that reads back as the magnitude of `x`. Seventeen digits always do. -/
def shortest (tie : Tie) (x : Double) : Decimal :=
  if x.significand = 0 then ⟨0, 0⟩
  else match (List.range 17).findSome? fun i => neighbour? tie x (i + 1) with
    | some d => d.strip 17
    | none => ⟨0, 0⟩

/-- The two halves of a list of digits with the point after the first `point` of them; zeros fill
what is missing on either side. -/
def splitAtPoint (ds : List Char) (point : Int) : List Char × List Char :=
  if point ≤ 0 then (['0'], List.replicate (-point).toNat '0' ++ ds)
  else
    let whole := ds.take point.toNat
    (whole ++ List.replicate (point.toNat - whole.length) '0', ds.drop point.toNat)

/-- Positional notation without an exponent; a whole number has no point. -/
def plainText (x : Double) : String :=
  let d := shortest .awayFromZero x
  let ds := Number.digits d.mantissa
  let sign := if x.negative then ['-'] else []
  let (whole, fraction) := splitAtPoint ds (ds.length + d.exponent)
  String.ofList (sign ++ whole ++ (if fraction.isEmpty then [] else '.' :: fraction))

/-- The text of a double in JSON: positional from `1e-5` up to `1e16` with at least one digit after
the point, and otherwise one digit before the point and an exponent with its sign. -/
def jsonText (x : Double) : String :=
  let d := shortest .toEven x
  let ds := Number.digits d.mantissa
  let sign := if x.negative then ['-'] else []
  let point := (ds.length : Int) + d.exponent
  if x.significand = 0 then String.ofList (sign ++ ['0', '.', '0'])
  else if -5 < point ∧ point ≤ 16 then
    let (whole, fraction) := splitAtPoint ds point
    String.ofList (sign ++ whole ++ '.' :: (if fraction.isEmpty then ['0'] else fraction))
  else
    let fraction := ds.drop 1
    let mantissa := ds.take 1 ++ (if fraction.isEmpty then [] else '.' :: fraction)
    let exponent := point - 1
    let mark := ['e', if exponent < 0 then '-' else '+']
    String.ofList (sign ++ mantissa ++ mark ++ Number.digits exponent.natAbs)

end Listing.Double

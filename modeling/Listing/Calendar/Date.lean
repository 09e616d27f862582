/-
# Dates and date-times

Days of the proleptic Gregorian calendar and seconds of such days. The calendar runs over the years
from -262143 to 262142. A minute may have a sixtieth second, the leap second, in any hour; it comes
after second 59 and before the next minute.
-/
import Listing.Number.Integer

namespace Listing

/-- A day of the calendar. -/
structure Date where
  year : Int
  month : Nat
  day : Nat
  deriving DecidableEq, Repr, Inhabited

/-- A second of a day, with nanoseconds. No time zone is kept. -/
structure DateTime where
  date : Date
  hour : Nat
  minute : Nat
  second : Nat
  nanosecond : Nat
  deriving DecidableEq, Repr, Inhabited

namespace Date

/-- Whether a year has a 29 February. -/
def isLeapYear (year : Int) : Bool := year % 4 == 0 && (year % 100 != 0 || year % 400 == 0)

/-- The number of days of a month; none for a number that is no month. -/
def daysInMonth (year : Int) (month : Nat) : Nat :=
  if month = 2 then (if isLeapYear year then 29 else 28)
  else if month = 4 ∨ month = 6 ∨ month = 9 ∨ month = 11 then 30
  else if 1 ≤ month ∧ month ≤ 12 then 31
  else 0

/-- Whether the calendar has such a day. -/
def isValid (d : Date) : Bool :=
  -262143 ≤ d.year && d.year ≤ 262142 && 1 ≤ d.day && d.day ≤ daysInMonth d.year d.month

/-- The order of days in time. -/
def compare (a b : Date) : Ordering :=
  (Ord.compare a.year b.year).then <| (Ord.compare a.month b.month).then <|
    Ord.compare a.day b.day

/-- The day after. -/
def next (d : Date) : Date :=
  if d.day < daysInMonth d.year d.month then { d with day := d.day + 1 }
  else if d.month < 12 then ⟨d.year, d.month + 1, 1⟩
  else ⟨d.year + 1, 1, 1⟩

/-- The day before. -/
def previous (d : Date) : Date :=
  if 1 < d.day then { d with day := d.day - 1 }
  else if 1 < d.month then ⟨d.year, d.month - 1, daysInMonth d.year (d.month - 1)⟩
  else ⟨d.year - 1, 12, 31⟩

/-- The first second of a day. -/
def midnight (d : Date) : DateTime := ⟨d, 0, 0, 0, 0⟩

end Date

namespace DateTime

/-- Whether the day exists and the clock shows such a time. -/
def isValid (t : DateTime) : Bool :=
  t.date.isValid && t.hour ≤ 23 && t.minute ≤ 59 && t.second ≤ 60 && t.nanosecond < 1000000000

/-- The order of date-times in time. -/
def compare (a b : DateTime) : Ordering :=
  (a.date.compare b.date).then <| (Ord.compare a.hour b.hour).then <|
    (Ord.compare a.minute b.minute).then <| (Ord.compare a.second b.second).then <|
      Ord.compare a.nanosecond b.nanosecond

/-- The same moment seen from a zone that is `minutes` behind, less than a day. Whole minutes leave
the second, and so a leap second, as it is. -/
def minusMinutes (t : DateTime) (minutes : Int) : DateTime :=
  let total : Int := t.hour * 60 + t.minute - minutes
  let clock := (total % 1440).toNat
  let date := if total < 0 then t.date.previous
    else if 1440 ≤ total then t.date.next else t.date
  { t with date, hour := clock / 60, minute := clock % 60 }

end DateTime
end Listing

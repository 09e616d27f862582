/-
# Date and time formats

A format is a list of items, and reading and writing both follow it. In a format, a number may be
written with fewer digits than it is printed with, and with blanks in front of it; a year may carry
a sign, and then has any number of digits. The internet format of RFC 3339 is stricter: its
numbers have a fixed width, and it ends in the offset from universal time.
-/
import Listing.Calendar.Date
import Listing.Text.Blank

namespace Listing
namespace Calendar

/-- One item of a format. -/
inductive Item
  | year | month | day | hour | minute | second
  /-- A point and digits of the second; nothing when there is no fraction. -/
  | fraction
  /-- Exactly this character. -/
  | char (c : Char)
  /-- Any run of blanks, also an empty one; written as one space. -/
  | blanks

/-- The numbers read so far. What a format does not mention is zero. -/
structure Fields where
  year : Int := 0
  month : Nat := 0
  day : Nat := 0
  hour : Nat := 0
  minute : Nat := 0
  second : Nat := 0
  nanosecond : Nat := 0

/-- Year, month and day with hyphens. -/
def dateItems : List Item := [.year, .char '-', .month, .char '-', .day]

/-- Hours and minutes. -/
def minuteItems : List Item := [.hour, .char ':', .minute]

/-- Hours, minutes and seconds. -/
def secondItems : List Item := minuteItems ++ [.char ':', .second]

/-- The form in which a date-time is written, and the first in which one is read. -/
def dateTimeItems : List Item := dateItems ++ [.char 'T'] ++ secondItems ++ [.fraction]

/-- The forms in which a date-time without an offset is read, in the order of the attempts. -/
def dateTimeForms : List (List Item) :=
  [dateTimeItems,
   dateItems ++ [.char 'T'] ++ secondItems ++ [.char 'Z'],
   dateItems ++ [.blanks] ++ secondItems ++ [.fraction],
   dateItems ++ [.char 'T'] ++ minuteItems]

/-- A number of at least one and at most `most` digits, and what follows it. -/
def readNumber? (most : Nat) (cs : List Char) : Option (Nat × List Char) :=
  let ds := (cs.takeWhile Number.isDigit).take most
  if ds.isEmpty then none else some (Number.ofDigits ds, cs.drop ds.length)

/-- A number of any length. -/
def readLong? (cs : List Char) : Option (Nat × List Char) :=
  let ds := cs.takeWhile Number.isDigit
  if ds.isEmpty then none else some (Number.ofDigits ds, cs.drop ds.length)

/-- A year: up to four digits, or a sign and any number of digits. -/
def readYear? (cs : List Char) : Option (Int × List Char) :=
  match Text.skipBlanks cs with
  | '-' :: cs => (readLong? cs).map fun (n, rest) => (-(n : Int), rest)
  | '+' :: cs => (readLong? cs).map fun (n, rest) => ((n : Int), rest)
  | cs => (readNumber? 4 cs).map fun (n, rest) => ((n : Int), rest)

/-- A number of up to two digits after any blanks. -/
def readTwo? (cs : List Char) : Option (Nat × List Char) := readNumber? 2 (Text.skipBlanks cs)

/-- Nanoseconds written as digits after the point of a second: the ninth digit is the last that
counts, and at least one must be there. -/
def readNanoseconds? (cs : List Char) : Option (Nat × List Char) :=
  let ds := cs.takeWhile Number.isDigit
  if ds.isEmpty then none
  else
    let counted := ds.take 9
    some (Number.ofDigits counted * Number.tenTo (9 - counted.length), cs.drop ds.length)

/-- Read one item. -/
def readItem? (f : Fields) : Item → List Char → Option (Fields × List Char)
  | .year, cs => (readYear? cs).map fun (n, rest) => ({ f with year := n }, rest)
  | .month, cs => (readTwo? cs).map fun (n, rest) => ({ f with month := n }, rest)
  | .day, cs => (readTwo? cs).map fun (n, rest) => ({ f with day := n }, rest)
  | .hour, cs => (readTwo? cs).map fun (n, rest) => ({ f with hour := n }, rest)
  | .minute, cs => (readTwo? cs).map fun (n, rest) => ({ f with minute := n }, rest)
  | .second, cs => (readTwo? cs).map fun (n, rest) => ({ f with second := n }, rest)
  | .fraction, '.' :: cs =>
    (readNanoseconds? cs).map fun (n, rest) => ({ f with nanosecond := n }, rest)
  | .fraction, cs => some (f, cs)
  | .char c, d :: cs => if c = d then some (f, cs) else none
  | .char _, [] => none
  | .blanks, cs => some (f, Text.skipBlanks cs)

/-- Read a whole text by a format: every item in turn, and nothing after the last. -/
def readItems? (f : Fields) : List Item → List Char → Option Fields
  | [], [] => some f
  | [], _ :: _ => none
  | item :: items, cs => match readItem? f item cs with
    | some (f, rest) => readItems? f items rest
    | none => none

/-- The day that the fields name, if the calendar has it. -/
def Fields.date? (f : Fields) : Option Date :=
  let d : Date := ⟨f.year, f.month, f.day⟩
  if d.isValid then some d else none

/-- The date-time that the fields name, if there is one. -/
def Fields.dateTime? (f : Fields) : Option DateTime :=
  let t : DateTime := ⟨⟨f.year, f.month, f.day⟩, f.hour, f.minute, f.second, f.nanosecond⟩
  if t.isValid then some t else none

/-- Read a date by its format. -/
def readDate? (s : String) : Option Date := (readItems? {} dateItems s.toList).bind Fields.date?

/-- Exactly `count` digits. -/
def readExactly? (count : Nat) (cs : List Char) : Option (Nat × List Char) :=
  let ds := cs.take count
  if ds.length = count ∧ ds.all Number.isDigit then some (Number.ofDigits ds, cs.drop count)
  else none

/-- One expected character. -/
def readChar? (c : Char) : List Char → Option (List Char)
  | d :: cs => if c = d then some cs else none
  | [] => none

/-- The offset that ends an internet date-time, in minutes ahead of universal time. -/
def readOffset? (cs : List Char) : Option Int :=
  let signed (sign : Int) (cs : List Char) : Option Int := do
    let (hours, cs) ← readExactly? 2 cs
    let (minutes, cs) ← readExactly? 2 (← readChar? ':' cs)
    if cs.isEmpty ∧ hours ≤ 23 ∧ minutes ≤ 59 then some (sign * (hours * 60 + minutes)) else none
  match cs with
  | [] => none
  | c :: cs =>
    if c = 'Z' ∨ c = 'z' then (if cs.isEmpty then some 0 else none)
    else if c = '+' then signed 1 cs
    else if c = '-' ∨ c.toNat = 0x2212 then signed (-1) cs
    else none

/-- The fraction of an internet date-time, zero when there is none. -/
def readFraction? : List Char → Option (Nat × List Char)
  | '.' :: cs => readNanoseconds? cs
  | cs => some (0, cs)

/-- Read an internet date-time, as universal time. -/
def readInternet? (s : String) : Option DateTime := do
  let (year, cs) ← readExactly? 4 s.toList
  let (month, cs) ← readExactly? 2 (← readChar? '-' cs)
  let (day, cs) ← readExactly? 2 (← readChar? '-' cs)
  let cs ← match cs with
    | c :: cs => if c = 'T' ∨ c = 't' ∨ c = ' ' then some cs else none
    | [] => none
  let (hour, cs) ← readExactly? 2 cs
  let (minute, cs) ← readExactly? 2 (← readChar? ':' cs)
  let (second, cs) ← readExactly? 2 (← readChar? ':' cs)
  let (nanosecond, cs) ← readFraction? cs
  let offset ← readOffset? cs
  let clock ← Fields.dateTime? ⟨year, month, day, hour, minute, second, nanosecond⟩
  return clock.minusMinutes offset

/-- Read a date-time: an internet date-time, or one of the forms without an offset, or a date,
which stands for its midnight. Blanks around it do not count. -/
def readDateTime? (s : String) : Option DateTime :=
  let s := Text.trim s
  (readInternet? s).orElse fun _ =>
    (dateTimeForms.findSome? fun form =>
      (readItems? {} form s.toList).bind Fields.dateTime?).orElse fun _ =>
        (readDate? s).map Date.midnight

/-- The digits of a year: at least four, with a sign outside of the years 0 to 9999. -/
def yearChars (year : Int) : List Char :=
  let ds := Number.padded 4 year.natAbs
  if year < 0 then '-' :: ds else if 9999 < year then '+' :: ds else ds

/-- The fraction of a second in three, six or nine digits, as few as keep it; nothing for zero. -/
def fractionChars (nanosecond : Nat) : List Char :=
  if nanosecond = 0 then []
  else if nanosecond % 1000000 = 0 then '.' :: Number.padded 3 (nanosecond / 1000000)
  else if nanosecond % 1000 = 0 then '.' :: Number.padded 6 (nanosecond / 1000)
  else '.' :: Number.padded 9 nanosecond

/-- Write one item of a date-time. -/
def itemChars (t : DateTime) : Item → List Char
  | .year => yearChars t.date.year
  | .month => Number.padded 2 t.date.month
  | .day => Number.padded 2 t.date.day
  | .hour => Number.padded 2 t.hour
  | .minute => Number.padded 2 t.minute
  | .second => Number.padded 2 t.second
  | .fraction => fractionChars t.nanosecond
  | .char c => [c]
  | .blanks => [' ']

/-- Write a date-time by a format. -/
def write (items : List Item) (t : DateTime) : String :=
  String.ofList (items.flatMap (itemChars t))

end Calendar

/-- The text of a date. -/
def Date.text (d : Date) : String := Calendar.write Calendar.dateItems d.midnight

/-- The text of a date-time. -/
def DateTime.text (t : DateTime) : String := Calendar.write Calendar.dateTimeItems t

end Listing

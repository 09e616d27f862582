/-
# Dates and times as text

Whatever spelling a date or a date-time was read from, what was read is one that the calendar has,
also after its offset was taken off. Each item of a format reads back what it wrote, as long as the
text that follows cannot be taken for more of it. So a date and a date-time are read back from the
text in which they are written, for every year of the calendar, every fraction and leap second; and
the text of a date-time is none of the internet format, which is tried first.
-/
import Listing.Calendar.Format
import Listing.Proofs.Support.Numerals

namespace Listing

namespace Date

theorem isValid_iff {d : Date} : d.isValid = true ↔
    (-262143 ≤ d.year ∧ d.year ≤ 262142) ∧ 1 ≤ d.day ∧ d.day ≤ daysInMonth d.year d.month := by
  simp only [isValid, Bool.and_eq_true, decide_eq_true_eq, and_assoc]

theorem daysInMonth_le (year : Int) (month : Nat) : daysInMonth year month ≤ 31 := by
  unfold daysInMonth
  grind

theorem daysInMonth_pos {year : Int} {month : Nat} :
    1 ≤ daysInMonth year month ↔ 1 ≤ month ∧ month ≤ 12 := by
  unfold daysInMonth
  grind

variable {d : Date}

/-- A day that exists lies in one of the twelve months. -/
theorem month_of_isValid (hvalid : d.isValid = true) : 1 ≤ d.month ∧ d.month ≤ 12 := by
  have hday := (isValid_iff.1 hvalid).2
  exact daysInMonth_pos.1 (hday.1.trans hday.2)

theorem isValid_next (hvalid : d.isValid = true) (hyear : d.year < 262142) :
    d.next.isValid = true := by
  have hmonth := month_of_isValid hvalid
  rw [isValid_iff] at hvalid
  unfold next
  split
  · rw [isValid_iff]
    dsimp only
    omega
  · split
    · have hlast : 1 ≤ daysInMonth d.year (d.month + 1) := daysInMonth_pos.2 (by omega)
      rw [isValid_iff]
      dsimp only
      omega
    · have hlast : 1 ≤ daysInMonth (d.year + 1) 1 := daysInMonth_pos.2 (by decide)
      rw [isValid_iff]
      dsimp only
      omega

theorem isValid_previous (hvalid : d.isValid = true) (hyear : -262143 < d.year) :
    d.previous.isValid = true := by
  have hmonth := month_of_isValid hvalid
  rw [isValid_iff] at hvalid
  unfold previous
  split
  · rw [isValid_iff]
    dsimp only
    omega
  · split
    · have hlast : 1 ≤ daysInMonth d.year (d.month - 1) := daysInMonth_pos.2 (by omega)
      rw [isValid_iff]
      dsimp only
      omega
    · have hlast : daysInMonth (d.year - 1) 12 = 31 := rfl
      rw [isValid_iff]
      dsimp only
      omega

end Date

namespace DateTime

theorem isValid_iff {t : DateTime} : t.isValid = true ↔
    t.date.isValid = true ∧ t.hour ≤ 23 ∧ t.minute ≤ 59 ∧ t.second ≤ 60 ∧
      t.nanosecond < 1000000000 := by
  simp only [isValid, Bool.and_eq_true, decide_eq_true_eq, and_assoc]

/-- A moment seen from another zone exists, at most a day away from the ends of the calendar. -/
theorem isValid_minusMinutes {t : DateTime} (hvalid : t.isValid = true)
    (hyear : -262143 < t.date.year ∧ t.date.year < 262142) {minutes : Int} :
    (t.minusMinutes minutes).isValid = true := by
  obtain ⟨hdate, _, _, hsecond, hnanosecond⟩ := isValid_iff.1 hvalid
  refine isValid_iff.2 ⟨?_, ?_, ?_, hsecond, hnanosecond⟩
  · show (if _ then t.date.previous else if _ then t.date.next else t.date).isValid = true
    split
    · exact Date.isValid_previous hdate hyear.1
    · split
      · exact Date.isValid_next hdate hyear.2
      · exact hdate
  · show ((t.hour * 60 + t.minute - minutes : Int) % 1440).toNat / 60 ≤ 23
    omega
  · show ((t.hour * 60 + t.minute - minutes : Int) % 1440).toNat % 60 ≤ 59
    omega

end DateTime

namespace Calendar

open Number

/-! ### What is read exists -/

theorem isValid_of_date? {f : Fields} {d : Date} (hdate : f.date? = some d) :
    d.isValid = true := by
  unfold Fields.date? at hdate
  dsimp only at hdate
  split at hdate
  · cases hdate
    assumption
  · cases hdate

theorem isValid_of_dateTime? {f : Fields} {t : DateTime} (hclock : f.dateTime? = some t) :
    t.isValid = true := by
  unfold Fields.dateTime? at hclock
  dsimp only at hclock
  split at hclock
  · cases hclock
    assumption
  · cases hclock

theorem date_of_dateTime? {f : Fields} {t : DateTime} (hclock : f.dateTime? = some t) :
    t.date = ⟨f.year, f.month, f.day⟩ := by
  unfold Fields.dateTime? at hclock
  dsimp only at hclock
  split at hclock
  · cases hclock
    rfl
  · cases hclock

theorem isValid_of_readDate? {s : String} {d : Date} (hread : readDate? s = some d) :
    d.isValid = true := by
  obtain ⟨f, _, hdate⟩ := Option.bind_eq_some_iff.1 hread
  exact isValid_of_date? hdate

/-- A number of fixed width is below the power of ten for it. -/
theorem lt_of_readExactly? {count n : Nat} {cs rest : List Char}
    (hread : readExactly? count cs = some (n, rest)) : n < tenTo count := by
  unfold readExactly? at hread
  dsimp only at hread
  split at hread
  · rename_i hdigits
    cases hread
    have hlt := ofDigits_lt hdigits.2
    rwa [hdigits.1] at hlt
  · cases hread

/-- What is read of an internet date-time: a clock with a year of four digits, and an offset that is
taken off. -/
theorem exists_clock_of_readInternet? {s : String} {t : DateTime}
    (hread : readInternet? s = some t) : ∃ (clock : DateTime) (offset : Int),
      clock.isValid = true ∧ (0 ≤ clock.date.year ∧ clock.date.year < 10000) ∧
        t = clock.minusMinutes offset := by
  unfold readInternet? at hread
  obtain ⟨⟨year, cs⟩, hyear, hread⟩ := Option.bind_eq_some_iff.1 hread
  have hbelow : year < 10000 := lt_of_readExactly? hyear
  obtain ⟨cs, -, hread⟩ := Option.bind_eq_some_iff.1 hread
  obtain ⟨⟨month, cs⟩, -, hread⟩ := Option.bind_eq_some_iff.1 hread
  obtain ⟨cs, -, hread⟩ := Option.bind_eq_some_iff.1 hread
  obtain ⟨⟨day, cs⟩, -, hread⟩ := Option.bind_eq_some_iff.1 hread
  dsimp only at hread
  split at hread
  · split at hread
    · obtain ⟨cs, -, hread⟩ := Option.bind_eq_some_iff.1 hread
      obtain ⟨⟨hour, cs⟩, -, hread⟩ := Option.bind_eq_some_iff.1 hread
      obtain ⟨cs, -, hread⟩ := Option.bind_eq_some_iff.1 hread
      obtain ⟨⟨minute, cs⟩, -, hread⟩ := Option.bind_eq_some_iff.1 hread
      obtain ⟨cs, -, hread⟩ := Option.bind_eq_some_iff.1 hread
      obtain ⟨⟨second, cs⟩, -, hread⟩ := Option.bind_eq_some_iff.1 hread
      obtain ⟨⟨nanosecond, cs⟩, -, hread⟩ := Option.bind_eq_some_iff.1 hread
      obtain ⟨offset, -, hread⟩ := Option.bind_eq_some_iff.1 hread
      obtain ⟨clock, hclock, hread⟩ := Option.bind_eq_some_iff.1 hread
      cases hread
      have hdate := date_of_dateTime? hclock
      exact ⟨clock, offset, isValid_of_dateTime? hclock, by rw [hdate]; dsimp only; omega, rfl⟩
    · cases hread
  · cases hread

theorem isValid_of_readInternet? {s : String} {t : DateTime} (hread : readInternet? s = some t) :
    t.isValid = true := by
  obtain ⟨clock, offset, hvalid, hyear, rfl⟩ := exists_clock_of_readInternet? hread
  exact DateTime.isValid_minusMinutes hvalid ⟨by omega, by omega⟩

/-- Whatever form a date-time was read from, it exists. -/
theorem isValid_of_readDateTime? {s : String} {t : DateTime} (hread : readDateTime? s = some t) :
    t.isValid = true := by
  unfold readDateTime? at hread
  dsimp only at hread
  rw [Option.orElse_eq_or, Option.orElse_eq_or] at hread
  rcases Option.or_eq_some_iff.1 hread with hinternet | ⟨-, hread⟩
  · exact isValid_of_readInternet? hinternet
  · rcases Option.or_eq_some_iff.1 hread with hform | ⟨-, hmidnight⟩
    · obtain ⟨form, _, hform⟩ := List.exists_of_findSome?_eq_some hform
      obtain ⟨f, _, hclock⟩ := Option.bind_eq_some_iff.1 hform
      exact isValid_of_dateTime? hclock
    · obtain ⟨d, hdate, rfl⟩ := Option.map_eq_some_iff.1 hmidnight
      exact DateTime.isValid_iff.2 ⟨isValid_of_readDate? hdate, by simp [Date.midnight]⟩

/-! ### What is written is read back -/

/-- The numbers that a text gives for an item of a format. -/
def Fields.note (t : DateTime) (f : Fields) : Item → Fields
  | .year => { f with year := t.date.year }
  | .month => { f with month := t.date.month }
  | .day => { f with day := t.date.day }
  | .hour => { f with hour := t.hour }
  | .minute => { f with minute := t.minute }
  | .second => { f with second := t.second }
  | .fraction => { f with nanosecond := t.nanosecond }
  | .char _ | .blanks => f

/-- The text of these items does not begin with a digit or a point. -/
def beginsClosed : List Item → Bool
  | [] => true
  | .char c :: _ => !isDigit c && c != '.'
  | _ => false

/-- A year and a fraction, which may have any number of digits, are followed by the end or by a
character that is no part of a number, and no blanks are left to the reader. -/
def isDelimited : List Item → Bool
  | [] => true
  | .blanks :: _ => false
  | .year :: items | .fraction :: items => beginsClosed items && isDelimited items
  | _ :: items => isDelimited items

/-- What a year or a fraction may be followed by. -/
def IsEnd (cs : List Char) : Prop := ∀ c ∈ cs.head?, isDigit c = false ∧ c ≠ '.'

theorem IsEnd.noDigitFirst {cs : List Char} (hend : IsEnd cs) : NoDigitFirst cs :=
  fun c hc => (hend c hc).1

/-- What begins with a digit has no blanks to skip. -/
theorem skipBlanks_padded (width n : Nat) (rest : List Char) :
    Text.skipBlanks (padded width n ++ rest) = padded width n ++ rest := by
  obtain ⟨c, ds, hds⟩ := List.exists_cons_of_ne_nil (padded_ne_nil width n)
  have hdigit : isDigit c = true :=
    isDigit_of_mem_padded (hds ▸ List.mem_cons_self : c ∈ padded width n)
  rw [hds]
  exact Text.skipBlanks_of_head fun _ hc => by
    cases hc
    exact Text.isBlank_of_isDigit hdigit

/-- A number that has as many digits as are allowed is read back, whatever follows. -/
theorem readNumber?_padded {width n : Nat} (hwidth : 0 < width) (hn : n < tenTo width)
    (rest : List Char) : readNumber? width (padded width n ++ rest) = some (n, rest) := by
  have hdigits := take_takeWhile_isDigit (all_isDigit_padded width n) rest
  rw [length_padded hwidth hn] at hdigits
  simp [readNumber?, hdigits, padded_ne_nil, ofDigits_padded]

theorem readTwo?_padded {n : Nat} (hn : n < 100) (rest : List Char) :
    readTwo? (padded 2 n ++ rest) = some (n, rest) := by
  rw [readTwo?, skipBlanks_padded]
  exact readNumber?_padded (by decide) hn rest

theorem readLong?_padded (width n : Nat) {rest : List Char} (hrest : NoDigitFirst rest) :
    readLong? (padded width n ++ rest) = some (n, rest) := by
  rw [readLong?, takeWhile_isDigit (all_isDigit_padded width n) hrest]
  simp [padded_ne_nil, ofDigits_padded]

/-- A year is read back, with its sign or in four digits. -/
theorem readYear?_yearChars (year : Int) {rest : List Char} (hrest : NoDigitFirst rest) :
    readYear? (yearChars year ++ rest) = some (year, rest) := by
  have hlong := readLong?_padded 4 year.natAbs hrest
  unfold yearChars
  dsimp only
  split
  · have hsign : Text.skipBlanks ('-' :: padded 4 year.natAbs ++ rest) =
        '-' :: (padded 4 year.natAbs ++ rest) := rfl
    rw [readYear?, hsign]
    simp only [hlong, Option.map_some]
    congr 2
    omega
  · split
    · have hsign : Text.skipBlanks ('+' :: padded 4 year.natAbs ++ rest) =
          '+' :: (padded 4 year.natAbs ++ rest) := rfl
      rw [readYear?, hsign]
      simp only [hlong, Option.map_some]
      congr 2
      omega
    · have hyear : year.natAbs < tenTo 4 := by
        show year.natAbs < 10000
        omega
      have hnumber := readNumber?_padded (by decide) hyear rest
      obtain ⟨c, ds, hds⟩ := List.exists_cons_of_ne_nil (padded_ne_nil 4 year.natAbs)
      have hdigit : isDigit c = true :=
        isDigit_of_mem_padded (hds ▸ List.mem_cons_self : c ∈ padded 4 year.natAbs)
      rw [readYear?, skipBlanks_padded]
      rw [hds] at hnumber ⊢
      split
      · rename_i heq
        rw [(List.cons.inj heq).1] at hdigit
        cases hdigit
      · rename_i heq
        rw [(List.cons.inj heq).1] at hdigit
        cases hdigit
      · rw [hnumber, Option.map_some]
        have habs : ((year.natAbs : Nat) : Int) = year := Int.natAbs_of_nonneg (by omega)
        dsimp only
        rw [habs]

theorem readNanoseconds?_padded {width n : Nat} (hwidth : 0 < width) (hmost : width ≤ 9)
    (hn : n < tenTo width) {rest : List Char} (hrest : NoDigitFirst rest) :
    readNanoseconds? (padded width n ++ rest) = some (n * tenTo (9 - width), rest) := by
  have hlength := length_padded hwidth hn
  have hcounted : (padded width n).take 9 = padded width n :=
    List.take_of_length_le (hlength.trans_le hmost)
  rw [readNanoseconds?, takeWhile_isDigit (all_isDigit_padded width n) hrest]
  simp [padded_ne_nil, hcounted, ofDigits_padded, hlength]

/-- The fraction that is written, which may be nothing, is read back. -/
theorem readFraction?_fractionChars {nanosecond : Nat} (hn : nanosecond < 1000000000)
    {rest : List Char} (hend : IsEnd rest) :
    readFraction? (fractionChars nanosecond ++ rest) = some (nanosecond, rest) := by
  have hwidth : ∀ width n, 0 < width → width ≤ 9 → n < tenTo width →
      n * tenTo (9 - width) = nanosecond →
      readFraction? ('.' :: padded width n ++ rest) = some (nanosecond, rest) :=
    fun width n hpos hmost hbelow hvalue =>
      hvalue ▸ readNanoseconds?_padded hpos hmost hbelow hend.noDigitFirst
  unfold fractionChars
  split
  · rename_i hnone
    cases rest with
    | nil => rw [hnone]; rfl
    | cons c rest =>
        have hpoint : c ≠ '.' := (hend c rfl).2
        rw [List.nil_append, readFraction?, hnone]
        intro cs hcs
        exact hpoint (List.cons.inj hcs).1
  · split
    · exact hwidth 3 _ (by decide) (by decide) (by show _ < 1000; omega)
        (by show _ * 1000000 = _; omega)
    · split
      · exact hwidth 6 _ (by decide) (by decide) (by show _ < 1000000; omega)
          (by show _ * 1000 = _; omega)
      · exact hwidth 9 _ (by decide) (by decide) hn (by show _ * 1 = _; omega)

/-- The item of a fraction reads what an internet date-time reads there. -/
theorem readItem?_fraction {f : Fields} {cs : List Char}
    (hfraction : cs.head? = some '.' ∨ f.nanosecond = 0) :
    readItem? f .fraction cs =
      (readFraction? cs).map fun (n, rest) => ({ f with nanosecond := n }, rest) := by
  unfold readFraction?
  split
  · rfl
  · rename_i hpoint
    have hnone : f.nanosecond = 0 := hfraction.resolve_left fun hhead => by
      obtain ⟨cs', rfl⟩ := List.head?_eq_some_iff.1 hhead
      exact hpoint cs' rfl
    rw [readItem?, ← hnone]
    · rfl
    · exact hpoint

/-- A fraction that is not zero begins with a point. -/
theorem head?_fractionChars {nanosecond : Nat} (hn : nanosecond ≠ 0) :
    (fractionChars nanosecond).head? = some '.' := by
  unfold fractionChars
  rw [if_neg hn]
  split
  · rfl
  · split <;> rfl

/-- What is written for items that begin closed may follow a year or a fraction. -/
theorem isEnd_of_beginsClosed (t : DateTime) {items : List Item}
    (hitems : beginsClosed items = true) : IsEnd (items.flatMap (itemChars t)) := by
  unfold beginsClosed at hitems
  split at hitems
  · exact fun c hc => nomatch hc
  · intro c hc
    cases hc
    simpa using hitems
  · cases hitems

variable {t : DateTime}

/-- Whatever item a list begins with, it is read back from what the list writes. -/
theorem readItem?_itemChars (hvalid : t.isValid = true) {f : Fields} {item : Item}
    {items : List Item} (hdelimited : isDelimited (item :: items) = true)
    (hzero : t.nanosecond = 0 → f.nanosecond = 0) :
    isDelimited items = true ∧
      readItem? f item (itemChars t item ++ items.flatMap (itemChars t)) =
        some (f.note t item, items.flatMap (itemChars t)) := by
  obtain ⟨hdate, hhour, hminute, hsecond, hnanosecond⟩ := DateTime.isValid_iff.1 hvalid
  have hmonth := Date.month_of_isValid hdate
  have hday := (Date.isValid_iff.1 hdate).2
  have hlast := Date.daysInMonth_le t.date.year t.date.month
  have htwo : ∀ {n}, n < 100 → ∀ rest, readTwo? (padded 2 n ++ rest) = some (n, rest) :=
    fun hn rest => readTwo?_padded hn rest
  cases item with
  | year =>
      obtain ⟨hclosed, hitems⟩ := Bool.and_eq_true_iff.1 hdelimited
      have hend := isEnd_of_beginsClosed t hclosed
      refine ⟨hitems, ?_⟩
      rw [itemChars, readItem?, readYear?_yearChars _ hend.noDigitFirst]
      rfl
  | fraction =>
      obtain ⟨hclosed, hitems⟩ := Bool.and_eq_true_iff.1 hdelimited
      refine ⟨hitems, ?_⟩
      rw [readItem?_fraction, itemChars,
        readFraction?_fractionChars hnanosecond (isEnd_of_beginsClosed t hclosed)]
      · rfl
      · by_cases hnone : t.nanosecond = 0
        · exact .inr (hzero hnone)
        · exact .inl (by rw [itemChars, List.head?_append, head?_fractionChars hnone]; rfl)
  | blanks => cases hdelimited
  | char c => exact ⟨hdelimited, by simp [itemChars, readItem?, Fields.note]⟩
  | month => exact ⟨hdelimited, by rw [itemChars, readItem?, htwo (by omega)]; rfl⟩
  | day => exact ⟨hdelimited, by rw [itemChars, readItem?, htwo (by omega)]; rfl⟩
  | hour => exact ⟨hdelimited, by rw [itemChars, readItem?, htwo (by omega)]; rfl⟩
  | minute => exact ⟨hdelimited, by rw [itemChars, readItem?, htwo (by omega)]; rfl⟩
  | second => exact ⟨hdelimited, by rw [itemChars, readItem?, htwo (by omega)]; rfl⟩

/-- A text that was written by a format is read back by it, number by number. -/
theorem readItems?_flatMap (hvalid : t.isValid = true) {items : List Item}
    (hdelimited : isDelimited items = true) {f : Fields}
    (hzero : t.nanosecond = 0 → f.nanosecond = 0) :
    readItems? f items (items.flatMap (itemChars t)) = some (items.foldl (Fields.note t) f) := by
  induction items generalizing f with
  | nil => rfl
  | cons item items ih =>
      obtain ⟨hitems, hread⟩ := readItem?_itemChars hvalid hdelimited hzero
      have hkept : t.nanosecond = 0 → (f.note t item).nanosecond = 0 := fun hnone => by
        cases item <;> first | exact hzero hnone | exact hnone
      rw [List.flatMap_cons, readItems?, hread, List.foldl_cons]
      exact ih hitems hkept

/-- What is written by a format is read back by it. -/
theorem readItems?_write (hvalid : t.isValid = true) {items : List Item}
    (hdelimited : isDelimited items = true) :
    readItems? {} items (write items t).toList = some (items.foldl (Fields.note t) {}) := by
  rw [write, String.toList_ofList]
  exact readItems?_flatMap hvalid hdelimited fun _ => rfl

/-- A year is written in digits after a sign or none. -/
theorem eq_sign_or_isDigit_of_mem_yearChars {year : Int} {c : Char} (hc : c ∈ yearChars year) :
    (c = '-' ∨ c = '+') ∨ isDigit c = true := by
  unfold yearChars at hc
  dsimp only at hc
  split at hc
  · exact (List.mem_cons.1 hc).imp .inl isDigit_of_mem_padded
  · split at hc
    · exact (List.mem_cons.1 hc).imp .inr isDigit_of_mem_padded
    · exact .inr (isDigit_of_mem_padded hc)

/-- A fraction is written in digits after a point. -/
theorem eq_point_or_isDigit_of_mem_fractionChars {nanosecond : Nat} {c : Char}
    (hc : c ∈ fractionChars nanosecond) : c = '.' ∨ isDigit c = true := by
  unfold fractionChars at hc
  split at hc
  · cases hc
  · split at hc
    · exact (List.mem_cons.1 hc).imp_right isDigit_of_mem_padded
    · split at hc <;> exact (List.mem_cons.1 hc).imp_right isDigit_of_mem_padded

/-- What is written for an item holds no blank. -/
def writesNoBlank : Item → Bool
  | .char c => !Text.isBlank c
  | .blanks => false
  | _ => true

/-- What is written by a format without blanks has none, so trimming leaves it as it is. -/
theorem trim_write (t : DateTime) {items : List Item} (hitems : items.all writesNoBlank = true) :
    Text.trim (write items t) = write items t := by
  refine Text.trim_of_forall fun c hc => ?_
  rw [write, String.toList_ofList] at hc
  obtain ⟨item, hmem, hc⟩ := List.mem_flatMap.1 hc
  have hitem := List.all_eq_true.1 hitems item hmem
  cases item with
  | year =>
      rcases eq_sign_or_isDigit_of_mem_yearChars hc with (rfl | rfl) | hdigit
      · decide
      · decide
      · exact Text.isBlank_of_isDigit hdigit
  | fraction =>
      rcases eq_point_or_isDigit_of_mem_fractionChars hc with rfl | hdigit
      · decide
      · exact Text.isBlank_of_isDigit hdigit
  | blanks => cases hitem
  | char d =>
      cases List.mem_singleton.1 hc
      simpa [writesNoBlank] using hitem
  | month | day | hour | minute | second =>
      exact Text.isBlank_of_isDigit (isDigit_of_mem_padded hc)

/-! ### The text of a date-time is no internet date-time -/

theorem readExactly?_padded {width n : Nat} (hwidth : 0 < width) (hn : n < tenTo width)
    (rest : List Char) : readExactly? width (padded width n ++ rest) = some (n, rest) := by
  have hlength := length_padded hwidth hn
  have hdigits := all_isDigit_padded width n
  simp only [readExactly?, List.take_left' hlength, List.drop_left' hlength, hlength, hdigits,
    ofDigits_padded, and_self, if_true]

/-- No number of a fixed width begins with a sign. -/
theorem readExactly?_cons_eq_none {count : Nat} {c : Char} (hc : isDigit c = false)
    (cs : List Char) : readExactly? (count + 1) (c :: cs) = none := by
  simp [readExactly?, hc]

/-- The text of a date-time begins with a sign, or ends where an internet date-time has its
offset. -/
theorem readInternet?_text (hvalid : t.isValid = true) : readInternet? t.text = none := by
  obtain ⟨hdate, hhour, hminute, hsecond, hnanosecond⟩ := DateTime.isValid_iff.1 hvalid
  have hmonth := Date.month_of_isValid hdate
  have hday := (Date.isValid_iff.1 hdate).2
  have hlast := Date.daysInMonth_le t.date.year t.date.month
  have htwo : ∀ {n}, n < 100 → ∀ rest, readExactly? 2 (padded 2 n ++ rest) = some (n, rest) :=
    fun hn rest => readExactly?_padded (by decide) hn rest
  have hfraction : readFraction? (fractionChars t.nanosecond) = some (t.nanosecond, []) := by
    have hend : IsEnd [] := fun c hc => nomatch hc
    have hread := readFraction?_fractionChars hnanosecond hend
    rwa [List.append_nil] at hread
  have htext : t.text.toList = yearChars t.date.year ++ '-' :: (padded 2 t.date.month ++
      '-' :: (padded 2 t.date.day ++ 'T' :: (padded 2 t.hour ++ ':' :: (padded 2 t.minute ++
        ':' :: (padded 2 t.second ++ fractionChars t.nanosecond))))) := by
    simp [DateTime.text, write, dateTimeItems, dateItems, secondItems, minuteItems, itemChars]
  unfold readInternet?
  rw [htext]
  unfold yearChars
  dsimp only
  split
  · rw [List.cons_append, readExactly?_cons_eq_none (by decide)]
    rfl
  · split
    · rw [List.cons_append, readExactly?_cons_eq_none (by decide)]
      rfl
    · rw [readExactly?_padded (by decide) (by show _ < 10000; omega)]
      have hmonth := htwo (show t.date.month < 100 by omega)
      have hday := htwo (show t.date.day < 100 by omega)
      have hhour := htwo (show t.hour < 100 by omega)
      have hminute := htwo (show t.minute < 100 by omega)
      have hsecond := htwo (show t.second < 100 by omega)
      have hchar : ∀ (c : Char) (cs : List Char), readChar? c (c :: cs) = some cs :=
        fun c cs => if_pos rfl
      have hbind : ∀ {α β : Type} (a : α) (f : α → Option β), (some a >>= f) = f a :=
        fun _ _ => rfl
      rw [hbind, hchar, hbind, hmonth, hbind, hchar, hbind, hday, hbind]
      dsimp only
      rw [if_pos (.inl rfl), hbind, hhour, hbind, hchar, hbind, hminute, hbind, hchar, hbind,
        hsecond, hbind, hfraction, hbind]
      rfl

/-! ### Dates and date-times are read back -/

/-- A day is read back from its text. -/
theorem readDate?_text {d : Date} (hvalid : d.isValid = true) : readDate? d.text = some d := by
  have hmidnight : d.midnight.isValid = true :=
    DateTime.isValid_iff.2 ⟨hvalid, by simp [Date.midnight]⟩
  rw [readDate?, Date.text, readItems?_write hmidnight (by decide)]
  exact if_pos hvalid

/-- A date-time is read back from its text. -/
theorem readDateTime?_text (hvalid : t.isValid = true) : readDateTime? t.text = some t := by
  have htrim : Text.trim t.text = t.text := trim_write t (by decide)
  have hform : (readItems? {} dateTimeItems t.text.toList).bind Fields.dateTime? = some t := by
    rw [DateTime.text, readItems?_write hvalid (by decide)]
    exact if_pos hvalid
  unfold readDateTime?
  dsimp only
  rw [htrim, readInternet?_text hvalid]
  simp [dateTimeForms, hform]

end Calendar
end Listing

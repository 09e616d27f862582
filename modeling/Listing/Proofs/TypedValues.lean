/-
# Typed values as JSON

A value that was read for an attribute belongs to the kind of the attribute: an integer lies in the
signed range, a day and a moment are in the calendar, a document is not null. The JSON form of such
a value is one of the spellings of its kind, and is read as that value again; so what a store is
given as JSON denotes what the request denoted, in whichever spelling it came. The one kind of
number left out is the double.
-/
import Listing.Operand
import Listing.Proofs.CalendarText

namespace Listing

/-! ### UUIDs -/

namespace Uuid

open Number

/-- Five groups with hyphens between them are read as the digits of all five. -/
theorem ofHyphenated?_groups {a b c d e : List Char} (ha : a.length = 8) (hb : b.length = 4)
    (hc : c.length = 4) (hd : d.length = 4) (he : e.length = 12) :
    ofHyphenated? (a ++ '-' :: b ++ '-' :: c ++ '-' :: d ++ '-' :: e) =
      ofDigits? (a ++ b ++ c ++ d ++ e) := by
  simp [ofHyphenated?, ha, hb, hc, hd, he, List.drop_append, List.drop_eq_nil_of_le]

/-- The 32 digits of a UUID are read as the UUID. -/
theorem ofDigits?_hexDigits (u : Uuid) :
    ofDigits? (hexDigits u.value.toNat 32) = some u := by
  have hvalue : u.value.toNat % 16 ^ 32 = u.value.toNat := Nat.mod_eq_of_lt u.value.isLt
  rw [ofDigits?, if_pos (length_hexDigits _ _), readHex?_hexDigits, hvalue]
  simp

/-- A text of 36 characters is read as five groups. -/
theorem read?_of_length {s : String} (hlength : s.toList.length = 36) :
    read? s = ofHyphenated? s.toList := by
  simp [read?, hlength]

/-- A UUID is read back from its text. -/
theorem read?_text (u : Uuid) : read? u.text = some u := by
  have hgroups : ∀ ds : List Char, ds.take 8 ++ (ds.drop 8).take 4 ++ (ds.drop 12).take 4 ++
      (ds.drop 16).take 4 ++ ds.drop 20 = ds := fun ds => by
    rw [← List.take_add, ← List.take_add, ← List.take_add, List.take_append_drop]
  have hlength := length_hexDigits u.value.toNat 32
  have htext : u.text.toList.length = 36 := by
    simp [text, hlength]
  rw [read?_of_length htext, text, String.toList_ofList,
    ofHyphenated?_groups (by simp [hlength]) (by simp [hlength]) (by simp [hlength])
      (by simp [hlength]) (by simp [hlength]), hgroups, ofDigits?_hexDigits]

/-- The text of a UUID holds no blank. -/
theorem trim_text (u : Uuid) : Text.trim u.text = u.text := by
  have hhex : ∀ c ∈ hexDigits u.value.toNat 32, Text.isBlank c = false :=
    fun c => Text.isBlank_of_mem_hexDigits
  have htake : ∀ count skipped, ∀ c ∈ ((hexDigits u.value.toNat 32).drop skipped).take count,
      Text.isBlank c = false :=
    fun count skipped c hc => hhex c (List.mem_of_mem_drop (List.mem_of_mem_take hc))
  refine Text.trim_of_forall fun c hc => ?_
  simp only [text, String.toList_ofList, List.mem_append, List.mem_cons] at hc
  rcases hc with (((hc | rfl | hc) | rfl | hc) | rfl | hc) | rfl | hc
  · exact htake 8 0 c hc
  · decide
  · exact htake 4 8 c hc
  · decide
  · exact htake 4 12 c hc
  · decide
  · exact htake 4 16 c hc
  · decide
  · exact hhex c (List.mem_of_mem_drop hc)

end Uuid

namespace Number

/-- A text that is read as an integer lies in the signed range. -/
theorem fitsSigned_of_readSigned? {s : String} {n : Int} (hread : readSigned? s = some n) :
    fitsSigned n = true :=
  (Option.filter_eq_some_iff.1 hread).2

end Number

namespace Scalar

/-- The values that a kind has. -/
def isOf : Kind → Scalar → Bool
  | .scalar, .bool _ | .scalar, .double _ | .scalar, .text _ => true
  | .scalar, .int n => Number.fitsSigned n
  | .scalar, .json value => Operand.isContainer value
  | .string, .text _ => true
  | .numeric, .int n => Number.fitsSigned n
  | .numeric, .double _ => true
  | .boolean, .bool _ => true
  | .date, .date d => d.isValid
  | .dateTime, .dateTime t => t.isValid
  | .uuid, .uuid _ => true
  | .collection, .json .null | .json, .json .null => false
  | .collection, .json _ | .json, .json _ => true
  | _, _ => false

variable {kind : Kind} {value : Json} {s : Scalar}

/-- An integer becomes a number, beyond the signed range a double. -/
theorem isOf_ofJson_int (hkind : kind = .scalar ∨ kind = .numeric) (n : Int) :
    (ofJson (.int n)).isOf kind = true := by
  show (if _ then Scalar.int n else _).isOf kind = true
  rcases hkind with rfl | rfl <;> split <;> first | assumption | rfl

theorem isOf_ofJson (hvalue : value ≠ .null) : (ofJson value).isOf .scalar = true := by
  cases value with
  | null => exact absurd rfl hvalue
  | int n => exact isOf_ofJson_int (.inl rfl) n
  | bool | double | string | array | object => rfl

theorem isOf_ofNumberText? {text : String} (hread : ofNumberText? text = some s) :
    s.isOf .numeric = true := by
  unfold ofNumberText? at hread
  dsimp only at hread
  rw [Option.orElse_eq_or] at hread
  rcases Option.or_eq_some_iff.1 hread with hint | ⟨-, hdouble⟩
  · obtain ⟨n, hn, rfl⟩ := Option.map_eq_some_iff.1 hint
    exact Number.fitsSigned_of_readSigned? hn
  · obtain ⟨x, -, rfl⟩ := Option.map_eq_some_iff.1 hdouble
    rfl

theorem isOf_ofBoolText? {text : String} (hread : ofBoolText? text = some s) :
    s.isOf .boolean = true := by
  unfold ofBoolText? at hread
  dsimp only at hread
  split at hread
  · cases hread; rfl
  · split at hread
    · cases hread; rfl
    · cases hread

theorem isOf_ofDateText? {text : String} (hread : ofDateText? text = some s) :
    s.isOf .date = true := by
  unfold ofDateText? at hread
  obtain ⟨d, hd, rfl⟩ := Option.map_eq_some_iff.1 hread
  rw [Option.orElse_eq_or] at hd
  rcases Option.or_eq_some_iff.1 hd with hdate | ⟨-, hmoment⟩
  · exact Calendar.isValid_of_readDate? hdate
  · obtain ⟨t, ht, rfl⟩ := Option.map_eq_some_iff.1 hmoment
    exact (DateTime.isValid_iff.1 (Calendar.isValid_of_readDateTime? ht)).1

theorem read_eq_ok (hvalue : value ≠ .null) :
    read kind value = .ok s ↔ ofKind? kind value = some s := by
  unfold read
  split
  · exact absurd rfl hvalue
  · split <;> simp_all

/-- Null is a value of no kind. -/
theorem ne_null_of_read (hread : read kind value = .ok s) : value ≠ .null := by
  rintro rfl
  cases hread

/-- What is read as a value of a kind belongs to the kind. -/
theorem isOf_of_read (hread : read kind value = .ok s) : s.isOf kind = true := by
  have hvalue := ne_null_of_read hread
  rw [read_eq_ok hvalue] at hread
  cases kind with
  | scalar =>
      cases hread
      exact isOf_ofJson hvalue
  | collection | json =>
      cases hread
      cases value <;> first | rfl | exact absurd rfl hvalue
  | string => cases value <;> cases hread <;> rfl
  | numeric =>
      cases value with
      | int n =>
          cases hread
          exact isOf_ofJson_int (.inr rfl) n
      | double x => cases hread; rfl
      | string text =>
          rw [ofKind?] at hread
          exact isOf_ofNumberText? hread
      | null | bool | array | object => cases hread
  | boolean =>
      cases value with
      | bool b => cases hread; rfl
      | int n =>
          rw [ofKind?] at hread
          split at hread
          · cases hread; rfl
          · split at hread <;> cases hread
            rfl
      | string text =>
          rw [ofKind?] at hread
          exact isOf_ofBoolText? hread
      | null | double | array | object => cases hread
  | date =>
      cases value with
      | string text =>
          rw [ofKind?] at hread
          exact isOf_ofDateText? hread
      | null | bool | int | double | array | object => cases hread
  | dateTime =>
      cases value with
      | string text =>
          rw [ofKind?] at hread
          obtain ⟨t, ht, rfl⟩ := Option.map_eq_some_iff.1 hread
          exact Calendar.isValid_of_readDateTime? ht
      | null | bool | int | double | array | object => cases hread
  | uuid =>
      cases value with
      | string text =>
          rw [ofKind?] at hread
          obtain ⟨u, -, rfl⟩ := Option.map_eq_some_iff.1 hread
          rfl
      | null | bool | int | double | array | object => cases hread

/-- The text that stands for a value in JSON is read as that value. -/
theorem read_string {text : String} (hread : ofKind? kind (.string text) = some s) :
    read kind (.string text) = .ok s := by
  have hvalue : Json.string text ≠ .null := nofun
  exact (read_eq_ok hvalue).2 hread

/-- The JSON form of a value of a kind is read as that value. -/
theorem read_toJson (hs : s.isOf kind = true) (hdouble : ∀ x, s ≠ .double x) :
    read kind s.toJson = .ok s := by
  cases s with
  | null => cases kind <;> cases hs
  | double x => exact absurd rfl (hdouble x)
  | bool b => cases kind <;> first | cases hs; done | rfl
  | int n =>
      have hvalue : Json.int n ≠ .null := nofun
      cases kind with
      | scalar | numeric => exact (read_eq_ok hvalue).2 (congrArg some (if_pos hs))
      | string | boolean | date | dateTime | uuid | collection | json => cases hs
  | text text => cases kind <;> first | cases hs; done | rfl
  | date d =>
      cases kind with
      | date =>
          have htrim : Text.trim d.text = d.text := Calendar.trim_write d.midnight (by decide)
          refine read_string ?_
          rw [ofKind?, ofDateText?, htrim, Calendar.readDate?_text hs]
          rfl
      | scalar | numeric | string | boolean | dateTime | uuid | collection | json => cases hs
  | dateTime t =>
      cases kind with
      | dateTime =>
          refine read_string ?_
          rw [ofKind?, Calendar.readDateTime?_text hs]
          rfl
      | scalar | numeric | string | boolean | date | uuid | collection | json => cases hs
  | uuid u =>
      cases kind with
      | uuid =>
          refine read_string ?_
          rw [ofKind?, Uuid.trim_text, Uuid.read?_text]
          rfl
      | scalar | numeric | string | boolean | date | dateTime | collection | json => cases hs
  | json value =>
      cases kind with
      | scalar | collection | json => cases value <;> first | cases hs; done | rfl
      | numeric | string | boolean | date | dateTime | uuid => cases hs

/-- Whatever spelling of a kind is accepted, what the JSON form of the value read denotes is the
same typed value, doubles apart. -/
theorem read_toJson_of_read (hread : read kind value = .ok s) (hdouble : ∀ x, s ≠ .double x) :
    read kind s.toJson = .ok s :=
  read_toJson (isOf_of_read hread) hdouble

/-! ### A leap second at the beginning of the calendar's first year -/

/-- A quarter of a second into a leap second, in the first half hour of year 0 and in a zone almost
a day ahead of universal time, where it is still the year before. -/
def leapSecond : Json := .string "0000-01-01T00:30:60.25+23:59"

/-- The same moment in universal time. -/
def leapSecondBefore : DateTime := ⟨⟨-1, 12, 31⟩, 0, 31, 60, 250000000⟩

/-- It is written with the sign of its year and three digits of its fraction, and read again. -/
theorem read_toJson_leapSecond :
    read .dateTime leapSecond = .ok (.dateTime leapSecondBefore) ∧
      leapSecondBefore.text = "-0001-12-31T00:31:60.250" ∧
      read .dateTime (Scalar.dateTime leapSecondBefore).toJson = .ok (.dateTime leapSecondBefore) := by
  have hmoment : Calendar.readDateTime? "0000-01-01T00:30:60.25+23:59" = some leapSecondBefore := by
    decide +kernel
  have hread : read .dateTime leapSecond = .ok (.dateTime leapSecondBefore) :=
    read_string (congrArg (Option.map Scalar.dateTime) hmoment)
  exact ⟨hread, by decide +kernel, read_toJson_of_read hread nofun⟩

end Scalar
end Listing

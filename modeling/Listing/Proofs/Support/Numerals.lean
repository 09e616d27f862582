/-
# Numerals

Decimal and hexadecimal digits give back the number that they were written for, with or without
leading zeros, and whatever follows them in a text is left alone as long as it is no digit. No digit
is a blank.
-/
import Listing.Number.Hex
import Listing.Number.Integer
import Listing.Proofs.Support.Trimming
import Mathlib.Tactic.IntervalCases
import Mathlib.Tactic.Ring

namespace Listing

namespace Number

theorem isDigit_of_mem_digits {n : Nat} {c : Char} (hc : c ∈ digits n) : isDigit c = true := by
  have hdigit := Nat.isDigit_of_mem_toDigits (b := 10) (by decide) (by decide) hc
  simpa [isDigit, Char.isDigit, Char.le_def, UInt32.le_iff_toNat_le] using hdigit

/-- Reading decimal digits is what the core library does with them. -/
theorem ofDigitsFrom_eq (n : Nat) (ds : List Char) :
    ofDigitsFrom n ds = Nat.ofDigitChars 10 ds n :=
  Nat.ofDigitChars_eq_foldl.symm

/-- A number is read back from its digits. -/
theorem ofDigits_digits (n : Nat) : ofDigits (digits n) = n := by
  rw [ofDigits, ofDigitsFrom_eq]
  exact Nat.ofDigitChars_ten_toDigits

theorem digits_ne_nil (n : Nat) : digits n ≠ [] := Nat.toDigits_ne_nil

/-- Different numbers have different digits. -/
theorem digits_injective : Function.Injective digits := fun m n h => by
  rw [← ofDigits_digits m, h, ofDigits_digits]

/-- No digits begin with a sign, or with anything else that is no digit. -/
theorem digits_ne_cons {c : Char} (hc : isDigit c = false) (n : Nat) (cs : List Char) :
    digits n ≠ c :: cs := fun h => by
  rw [isDigit_of_mem_digits (h ▸ List.mem_cons_self : c ∈ digits n)] at hc
  cases hc

theorem toList_integerText (n : Int) :
    (integerText n).toList = if n < 0 then '-' :: digits n.natAbs else digits n.natAbs := by
  unfold integerText
  split <;> exact String.toList_ofList

/-- Different integers have different texts. -/
theorem integerText_injective : Function.Injective integerText := by
  intro m n h
  have hchars := congrArg String.toList h
  rw [toList_integerText, toList_integerText] at hchars
  split at hchars <;> split at hchars
  · have habs := digits_injective (List.cons.inj hchars).2
    omega
  · exact absurd hchars.symm (digits_ne_cons (by decide) _ _)
  · exact absurd hchars (digits_ne_cons (by decide) _ _)
  · have habs := digits_injective hchars
    omega

/-- Leading zeros do not change the number. -/
theorem ofDigits_padded (width n : Nat) : ofDigits (padded width n) = n := by
  have hzeros : ∀ count, ofDigitsFrom 0 (List.replicate count '0') = 0 := fun count => by
    rw [ofDigitsFrom_eq, Nat.ofDigitChars_replicate_zero, Nat.mul_zero]
  have hdigits := ofDigits_digits n
  rw [ofDigits, ofDigitsFrom] at hdigits
  rw [ofDigits, ofDigitsFrom, padded, List.foldl_append]
  exact (congrArg (List.foldl _ · _) (hzeros _)).trans hdigits

theorem isDigit_of_mem_padded {width n : Nat} {c : Char} (hc : c ∈ padded width n) :
    isDigit c = true := by
  rcases List.mem_append.1 hc with hzero | hdigit
  · rw [List.eq_of_mem_replicate hzero]
    decide
  · exact isDigit_of_mem_digits hdigit

theorem all_isDigit_padded (width n : Nat) : (padded width n).all isDigit = true :=
  List.all_eq_true.2 fun _ => isDigit_of_mem_padded

/-- A number that fits the width is written with exactly as many digits. -/
theorem length_padded {width n : Nat} (hwidth : 0 < width) (hn : n < tenTo width) :
    (padded width n).length = width := by
  have hlength : (digits n).length ≤ width :=
    (Nat.length_toDigits_le_iff (by decide) hwidth).2 hn
  rw [padded, List.length_append, List.length_replicate]
  omega

theorem padded_ne_nil (width n : Nat) : padded width n ≠ [] :=
  List.append_ne_nil_of_right_ne_nil _ (digits_ne_nil n)

/-- Digits write a number below the power of ten for their count. -/
theorem ofDigits_lt {ds : List Char} (hds : ds.all isDigit = true) :
    ofDigits ds < tenTo ds.length := by
  have hfrom : ∀ n, ofDigitsFrom n ds < (n + 1) * tenTo ds.length := by
    induction ds with
    | nil => intro n; simp [ofDigitsFrom, tenTo]
    | cons c ds ih =>
        intro n
        rw [List.all_cons, Bool.and_eq_true] at hds
        have hvalue : digitValue c ≤ 9 := by
          have hc := hds.1
          simp only [isDigit, Bool.and_eq_true, decide_eq_true_eq] at hc
          unfold digitValue
          omega
        calc ofDigitsFrom n (c :: ds)
          _ = ofDigitsFrom (10 * n + digitValue c) ds := rfl
          _ < (10 * n + digitValue c + 1) * tenTo ds.length := ih hds.2 _
          _ ≤ ((n + 1) * 10) * tenTo ds.length := Nat.mul_le_mul_right _ (by omega)
          _ = (n + 1) * tenTo (c :: ds).length := by
              rw [List.length_cons, tenTo_succ, Nat.mul_assoc]
  simpa [ofDigits] using hfrom 0

/-- A text does not begin with a digit. -/
def NoDigitFirst (cs : List Char) : Prop := ∀ c ∈ cs.head?, isDigit c = false

/-- The leading digits end where something else begins. -/
theorem takeWhile_isDigit {ds rest : List Char} (hds : ds.all isDigit = true)
    (hrest : NoDigitFirst rest) : (ds ++ rest).takeWhile isDigit = ds := by
  have hnone : rest.takeWhile isDigit = [] := by
    cases rest with
    | nil => rfl
    | cons c rest => simp [hrest c rfl]
  rw [List.takeWhile_append_of_pos (by simpa using hds), hnone, List.append_nil]

/-- The digits that are written for a number of a width are read again, whatever follows. -/
theorem take_takeWhile_isDigit {ds : List Char} (hds : ds.all isDigit = true)
    (rest : List Char) : ((ds ++ rest).takeWhile isDigit).take ds.length = ds := by
  rw [List.takeWhile_append_of_pos (by simpa using hds), List.take_left']
  rfl

/-! ### Hexadecimal digits -/

theorem length_hexDigits (n count : Nat) : (hexDigits n count).length = count := by
  induction count with
  | zero => rfl
  | succ count ih => rw [hexDigits, List.length_cons, ih]

/-- One hexadecimal digit has the value that it is written for. -/
theorem hexValue?_digitChar {d : Nat} (hd : d < 16) : hexValue? (Nat.digitChar d) = some d := by
  interval_cases d <;> rfl

/-- The last hexadecimal digits of a number are read as what they write. -/
theorem readHex?_hexDigits (n count : Nat) :
    readHex? (hexDigits n count) = some (n % 16 ^ count) := by
  have hfrom : ∀ m, (hexDigits n count).foldlM (fun m c => (hexValue? c).map (16 * m + ·)) m =
      some (m * 16 ^ count + n % 16 ^ count) := by
    induction count with
    | zero => intro m; simp [hexDigits, Nat.mod_one]
    | succ count ih =>
        intro m
        have hdigit := hexValue?_digitChar (Nat.mod_lt (n / Nat.pow 16 count) (by decide : 0 < 16))
        rw [hexDigits, List.foldlM_cons, hdigit]
        refine (ih _).trans (congrArg some ?_)
        have hsplit : n % 16 ^ (count + 1) =
            n % 16 ^ count + 16 ^ count * (n / 16 ^ count % 16) := Nat.mod_pow_succ
        show (16 * m + n / 16 ^ count % 16) * 16 ^ count + n % 16 ^ count =
          m * 16 ^ (count + 1) + n % 16 ^ (count + 1)
        rw [hsplit, pow_succ]
        ring
  simpa [readHex?] using hfrom 0

end Number

namespace Text

/-- A digit is no blank. -/
theorem isBlank_of_isDigit {c : Char} (hc : Number.isDigit c = true) : isBlank c = false := by
  simp only [Number.isDigit, Bool.and_eq_true, decide_eq_true_eq] at hc
  simp only [isBlank, Bool.or_eq_false_iff, Bool.and_eq_false_iff, decide_eq_false_iff_not,
    beq_eq_false_iff_ne, ne_eq]
  omega

/-- Neither is a hexadecimal digit. -/
theorem isBlank_of_mem_hexDigits {n count : Nat} {c : Char} (hc : c ∈ Number.hexDigits n count) :
    isBlank c = false := by
  have hdigit : ∀ d < 16, isBlank (Nat.digitChar d) = false := by decide
  induction count with
  | zero => cases hc
  | succ count ih =>
      rcases List.mem_cons.1 hc with rfl | hc
      · exact hdigit _ (Nat.mod_lt _ (by decide))
      · exact ih hc

end Text
end Listing

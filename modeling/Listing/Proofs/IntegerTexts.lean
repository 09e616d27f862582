/-
# Integers and their texts

The decimal text of an integer of 64 bits stands for what the integer itself stands for, whatever
it is read as: the same number, also beyond the signed range, where both are the nearest double; the
same truth value; the same text. As a day, a moment or a UUID neither of them is read.
-/
import Listing.Json.Printer
import Listing.Proofs.TypedValues
import Mathlib.Data.List.TakeWhile

namespace Listing

namespace Number

/-- An integer of 64 bits, with a sign or without. -/
def Fits (n : Int) : Prop := fitsSigned n = true ∨ fitsUnsigned n = true

/-- An integer is written in digits, after a minus sign or none. -/
theorem eq_minus_or_isDigit_of_mem_integerText {n : Int} {c : Char}
    (hc : c ∈ (integerText n).toList) : c = '-' ∨ isDigit c = true := by
  rw [toList_integerText] at hc
  split at hc
  · exact (List.mem_cons.1 hc).imp_right isDigit_of_mem_digits
  · exact .inr (isDigit_of_mem_digits hc)

theorem notMem_integerText {n : Int} {c : Char} (hc : c ≠ '-' ∧ isDigit c = false) :
    c ∉ (integerText n).toList := fun hmem => by
  rcases eq_minus_or_isDigit_of_mem_integerText hmem with hminus | hdigit
  · exact hc.1 hminus
  · rw [hc.2] at hdigit
    cases hdigit

theorem trim_integerText (n : Int) : Text.trim (integerText n) = integerText n := by
  refine Text.trim_of_forall fun c hc => ?_
  rcases eq_minus_or_isDigit_of_mem_integerText hc with rfl | hdigit
  · decide
  · exact Text.isBlank_of_isDigit hdigit

theorem all_isDigit_digits (n : Nat) : (digits n).all isDigit = true :=
  List.all_eq_true.2 fun _ => isDigit_of_mem_digits

theorem readDigits?_digits (n : Nat) : readDigits? (digits n) = some n := by
  simp [readDigits?, digits_ne_nil, all_isDigit_digits, ofDigits_digits]

/-- The text of an integer is read as the integer where it is in the signed range. -/
theorem readSigned?_integerText (n : Int) :
    readSigned? (integerText n) = if fitsSigned n then some n else none := by
  have hread : readSigned? (integerText n) = (some n).filter fitsSigned := by
    unfold readSigned?
    rw [toList_integerText]
    refine congrArg (Option.filter fitsSigned) ?_
    by_cases hn : n < 0
    · have habs : -|n| = n := by rw [abs_of_neg hn, neg_neg]
      rw [if_pos hn]
      simp [readDigits?_digits, habs]
    · have habs : (n.natAbs : Int) = n := by omega
      rw [if_neg hn]
      split
      · rename_i heq
        exact absurd heq (digits_ne_cons (by decide) _ _)
      · rename_i heq
        exact absurd heq (digits_ne_cons (by decide) _ _)
      · simp [readDigits?_digits, habs]
  rw [hread, Option.filter_some]

/-- The text of a natural number is read as the number where it is in the unsigned range. -/
theorem readUnsigned?_integerText (n : Nat) :
    readUnsigned? (integerText n) = if fitsUnsigned n then some n else none := by
  have hread : readUnsigned? (integerText n) = (some n).filter fun n : Nat => fitsUnsigned n := by
    unfold readUnsigned?
    rw [toList_integerText, if_neg (by omega)]
    refine congrArg (Option.filter fun n : Nat => fitsUnsigned n) ?_
    split
    · rename_i heq
      exact absurd heq (digits_ne_cons (by decide) _ _)
    · exact readDigits?_digits n
  rw [hread, Option.filter_some]

/-- An integer of 64 bits has at most twenty digits. -/
theorem length_integerText {n : Int} (hn : Fits n) : (integerText n).toList.length ≤ 21 := by
  have hbelow : n.natAbs < 10 ^ 20 := by
    have htwo : twoTo 64 < 10 ^ 20 := by decide
    have hhalf : twoTo 63 < twoTo 64 := by decide
    simp only [Fits, fitsSigned, fitsUnsigned, Bool.and_eq_true, decide_eq_true_eq] at hn
    omega
  have hcount : (digits n.natAbs).length ≤ 20 :=
    (Nat.length_toDigits_le_iff (by decide) (by decide)).2 hbelow
  rw [toList_integerText]
  split
  · exact Nat.succ_le_succ hcount
  · exact Nat.le_succ_of_le hcount

/-- The text of an integer has no capital letters. -/
theorem lowerAscii_of_mem {cs : List Char} {n : Int} (hcs : ∀ c ∈ cs, c ∈ (integerText n).toList) :
    Text.lowerAscii (String.ofList cs) = String.ofList cs := by
  have hchar : ∀ c ∈ cs, Text.lowerAsciiChar c = c := fun c hc => by
    have hrange : ¬ (65 ≤ c.toNat ∧ c.toNat ≤ 90) := by
      rcases eq_minus_or_isDigit_of_mem_integerText (hcs c hc) with rfl | hdigit
      · decide
      · simp only [isDigit, Bool.and_eq_true, decide_eq_true_eq] at hdigit
        omega
    rw [Text.lowerAsciiChar, if_neg (by simpa using hrange)]
  rw [Text.lowerAscii, String.toList_ofList, List.map_congr_left hchar, List.map_id']

end Number

namespace Double

open Number

/-- The number below two to the 64th power has a nearest double. -/
theorem exists_ofRatio? {n : Nat} (hn : n < twoTo 64) (negative : Bool) :
    ∃ x, ofRatio? negative n 1 = some x := by
  unfold ofRatio?
  split
  · exact ⟨_, rfl⟩
  · rename_i hpos
    have hlog : n.log2 < 64 := (Nat.log2_lt hpos).2 hn
    have hexponent : exponentFor n 1 ≤ 11 := by
      unfold exponentFor leastExponent
      dsimp only
      have hone : Nat.log2 1 = 0 := by decide
      rw [hone]
      split <;> omega
    have hbelow : ¬ greatestExponent < exponentFor n 1 := by
      unfold greatestExponent
      omega
    have hnext : ¬ greatestExponent < exponentFor n 1 + 1 := by
      unfold greatestExponent
      omega
    dsimp only
    by_cases hcarry : roundDiv (scaleDown n 1 (exponentFor n 1)).1
        (scaleDown n 1 (exponentFor n 1)).2 = twoTo 53
    · exact ⟨_, by rw [if_pos hcarry]; exact if_neg hnext⟩
    · exact ⟨_, by rw [if_neg hcarry]; exact if_neg hbelow⟩

/-- The text of a natural number of 64 bits is read as the nearest double. -/
theorem read?_integerText {n : Int} (hn : fitsUnsigned n = true) :
    read? (integerText n) = some (ofInt n) := by
  simp only [fitsUnsigned, Bool.and_eq_true, decide_eq_true_eq] at hn
  have hbelow : n.natAbs < twoTo 64 := by omega
  have hcount : (digits n.natAbs).length ≤ 20 := by
    refine (Nat.length_toDigits_le_iff (by decide) (by decide)).2 (hbelow.trans ?_)
    decide
  obtain ⟨x, hx⟩ := exists_ofRatio? hbelow false
  have hdecimal : ofDecimal? false n.natAbs 0 = some x := by
    unfold ofDecimal?
    dsimp only
    split
    · rename_i hnone
      have hzero : n.natAbs = 0 := by
        simp only [Bool.or_eq_true, decide_eq_true_eq] at hnone
        omega
      rw [hzero] at hx
      exact hx
    · rw [if_neg (by omega), if_pos (by decide)]
      exact (congrArg (ofRatio? false · 1) (Nat.mul_one _)).trans hx
  have hofInt : ofInt n = x := by
    rw [ofInt, decide_eq_false (by omega : ¬ n < 0), hx]
    rfl
  have hunsigned : readUnsigned? false (digits n.natAbs) = some x := by
    have hdigits := all_isDigit_digits n.natAbs
    unfold readUnsigned?
    rw [List.takeWhile_eq_self_iff.2 (List.all_eq_true.1 hdigits),
      List.dropWhile_eq_nil_iff.2 (List.all_eq_true.1 hdigits)]
    simp [digits_ne_nil, ofParts?, readExponent?, ofDigits_digits, hdecimal]
  rw [read?, toList_integerText, if_neg (by omega), hofInt]
  split
  · rename_i heq
    exact absurd heq (digits_ne_cons (by decide) _ _)
  · rename_i heq
    exact absurd heq (digits_ne_cons (by decide) _ _)
  · exact hunsigned

end Double

namespace Calendar

open Number

/-- No hyphen follows where there are only digits. -/
theorem readChar?_of_digits {cs : List Char} (hcs : ∀ c ∈ cs, isDigit c = true) :
    readChar? '-' cs = none := by
  cases cs with
  | nil => rfl
  | cons c cs =>
      have hc : '-' ≠ c := fun heq => by
        have hdigit := hcs c List.mem_cons_self
        rw [← heq] at hdigit
        cases hdigit
      exact if_neg hc

/-- What is left after a number is the end of the text. -/
theorem readLong?_suffix {k : Nat} {cs rest : List Char} (hread : readLong? cs = some (k, rest)) :
    rest <:+ cs := by
  unfold readLong? at hread
  dsimp only at hread
  split at hread
  · cases hread
  · cases hread
    exact List.drop_suffix _ _

theorem readNumber?_suffix {most k : Nat} {cs rest : List Char}
    (hread : readNumber? most cs = some (k, rest)) : rest <:+ cs := by
  unfold readNumber? at hread
  dsimp only at hread
  split at hread
  · cases hread
  · cases hread
    exact List.drop_suffix _ _

/-- After the year that an integer may be taken for there are only digits. -/
theorem isDigit_of_readYear? {n year : Int} {rest : List Char}
    (hread : readYear? (integerText n).toList = some (year, rest)) :
    ∀ c ∈ rest, isDigit c = true := by
  have hdigit : ∀ {cs}, cs <:+ digits n.natAbs → ∀ c ∈ cs, isDigit c = true :=
    fun hsuffix c hc => isDigit_of_mem_digits (hsuffix.subset hc)
  rw [toList_integerText] at hread
  split at hread
  · obtain ⟨⟨k, rest'⟩, hlong, heq⟩ := Option.map_eq_some_iff.1 hread
    cases heq
    exact hdigit (readLong?_suffix hlong)
  · have hskip : Text.skipBlanks (digits n.natAbs) = digits n.natAbs :=
      Text.skipBlanks_of_head fun c hc =>
        Text.isBlank_of_isDigit (isDigit_of_mem_digits (List.mem_of_mem_head? hc))
    rw [readYear?, hskip] at hread
    split at hread
    · rename_i heq
      exact absurd heq (digits_ne_cons (by decide) _ _)
    · rename_i heq
      exact absurd heq (digits_ne_cons (by decide) _ _)
    · obtain ⟨⟨k, rest'⟩, hnumber, heq⟩ := Option.map_eq_some_iff.1 hread
      cases heq
      exact hdigit (readNumber?_suffix hnumber)

/-- An integer is no text of a form that begins with a year and a hyphen. -/
theorem readItems?_integerText (n : Int) (f : Fields) (items : List Item) :
    readItems? f (.year :: .char '-' :: items) (integerText n).toList = none := by
  rw [readItems?]
  split
  · rename_i f' rest hitem
    obtain ⟨⟨year, rest'⟩, hyear, heq⟩ := Option.map_eq_some_iff.1 hitem
    cases heq
    have hhyphen := readChar?_of_digits (isDigit_of_readYear? hyear)
    cases rest with
    | nil => rfl
    | cons c rest =>
        have hc : '-' ≠ c := fun heq => by
          rw [readChar?, if_pos heq] at hhyphen
          cases hhyphen
        rw [readItems?, readItem?, if_neg hc]
  · rfl

/-- No integer is an internet date-time, which has a hyphen after four digits. -/
theorem readInternet?_integerText (n : Int) : readInternet? (integerText n) = none := by
  unfold readInternet?
  rw [toList_integerText]
  split
  · rw [readExactly?_cons_eq_none (by decide)]
    rfl
  · cases hyear : readExactly? 4 (digits n.natAbs) with
    | none => rfl
    | some year =>
        obtain ⟨k, rest⟩ := year
        unfold readExactly? at hyear
        dsimp only at hyear
        split at hyear
        · cases hyear
          have hrest : ∀ c ∈ (digits n.natAbs).drop 4, isDigit c = true :=
            fun c hc => isDigit_of_mem_digits (List.mem_of_mem_drop hc)
          show (readChar? '-' ((digits n.natAbs).drop 4) >>= fun cs => _) = none
          rw [readChar?_of_digits hrest]
          rfl
        · cases hyear

theorem readDate?_integerText (n : Int) : readDate? (integerText n) = none := by
  rw [readDate?, dateItems, readItems?_integerText]
  rfl

/-- No integer is a moment. -/
theorem readDateTime?_integerText (n : Int) : readDateTime? (integerText n) = none := by
  have hforms : (dateTimeForms.findSome? fun form =>
      (readItems? {} form (integerText n).toList).bind Fields.dateTime?) = none := by
    simp only [dateTimeForms, dateTimeItems, dateItems, List.cons_append, List.nil_append,
      List.findSome?_cons, readItems?_integerText, Option.bind_none, List.findSome?_nil]
  unfold readDateTime?
  dsimp only
  rw [trim_integerText, readInternet?_integerText, hforms, readDate?_integerText]
  rfl

end Calendar

namespace Uuid

open Number

/-- No integer of 64 bits is a UUID: it has too few digits, and names no scheme. -/
theorem read?_integerText {n : Int} (hn : Fits n) : read? (integerText n) = none := by
  have hlength := length_integerText hn
  have hscheme : Text.lowerAscii (String.ofList ((integerText n).toList.take 9)) ≠ urnScheme := by
    rw [lowerAscii_of_mem fun c => List.mem_of_mem_take]
    intro heq
    have htake := congrArg String.toList heq
    rw [String.toList_ofList] at htake
    have hmem : 'u' ∈ (integerText n).toList.take 9 := htake ▸ (by decide : 'u' ∈ urnScheme.toList)
    exact notMem_integerText (by decide) (List.mem_of_mem_take hmem)
  unfold read?
  dsimp only
  rw [if_neg (by omega), if_neg (by omega), if_neg (by omega), if_neg hscheme]

end Uuid

namespace Scalar

open Number

/-- The decimal text of an integer of 64 bits names a truth value exactly if the integer does. -/
theorem ofBoolText?_integerText (n : Int) : ofBoolText? (integerText n) =
    if n = 1 then some (.bool true) else if n = 0 then some (.bool false) else none := by
  have hword : Text.lowerAscii (Text.trim (integerText n)) = integerText n := by
    have hlower := lowerAscii_of_mem (n := n) fun c hc => hc
    rwa [trim_integerText, ← String.ofList_toList (s := integerText n)]
  have hletter : ∀ {word : String} {c : Char}, c ∈ word.toList → c ≠ '-' ∧ isDigit c = false →
      (integerText n == word) = false := fun hmem hc => by
    rw [beq_eq_false_iff_ne]
    rintro rfl
    exact notMem_integerText hc hmem
  have hnumber : ∀ {m : Int} {word : String}, integerText m = word →
      (integerText n == word) = decide (n = m) := fun {m word} hword => by
    rw [Bool.eq_iff_iff, beq_iff_eq, decide_eq_true_eq, ← hword]
    exact integerText_injective.eq_iff
  have htrue : ["1", "true", "yes", "on"].contains (integerText n) = decide (n = 1) := by
    simp only [List.contains_cons, List.contains_nil, Bool.or_false,
      hnumber (show integerText 1 = "1" by decide),
      hletter (show 't' ∈ "true".toList by decide) (by decide),
      hletter (show 'y' ∈ "yes".toList by decide) (by decide),
      hletter (show 'o' ∈ "on".toList by decide) (by decide)]
  have hfalse : ["0", "false", "no", "off"].contains (integerText n) = decide (n = 0) := by
    simp only [List.contains_cons, List.contains_nil, Bool.or_false,
      hnumber (show integerText 0 = "0" by decide),
      hletter (show 'f' ∈ "false".toList by decide) (by decide),
      hletter (show 'n' ∈ "no".toList by decide) (by decide),
      hletter (show 'o' ∈ "off".toList by decide) (by decide)]
  unfold ofBoolText?
  dsimp only
  rw [hword, htrue, hfalse]
  simp only [decide_eq_true_eq]

/-- The decimal text of an integer of 64 bits writes that number: a double where it is beyond the
signed range. -/
theorem ofNumberText?_integerText {n : Int} (hn : Fits n) :
    ofNumberText? (integerText n) = some (ofJson (.int n)) := by
  unfold ofNumberText? ofJson
  dsimp only
  rw [trim_integerText, readSigned?_integerText]
  by_cases hsigned : fitsSigned n = true
  · rw [if_pos hsigned, if_pos hsigned]
    rfl
  · rw [if_neg hsigned, if_neg hsigned,
      Double.read?_integerText (hn.resolve_left hsigned)]
    rfl

/-- The kinds of single values that are told apart. -/
def plainKinds : List Kind := [.string, .numeric, .boolean, .date, .dateTime, .uuid]

/-- As a value of a kind, the text of an integer of 64 bits is what the integer is. -/
theorem ofKind?_integerText {kind : Kind} (hkind : kind ∈ plainKinds) {n : Int} (hn : Fits n) :
    ofKind? kind (.string (integerText n)) = ofKind? kind (.int n) := by
  simp only [plainKinds, List.mem_cons, List.not_mem_nil, or_false] at hkind
  rcases hkind with rfl | rfl | rfl | rfl | rfl | rfl
  · have hrender : (Json.int n).render = integerText n := by
      rw [Json.render, Json.chars, String.ofList_toList]
    rw [ofKind?, ofKind?, hrender]
  · rw [ofKind?, ofKind?]
    exact ofNumberText?_integerText hn
  · rw [ofKind?, ofKind?]
    exact ofBoolText?_integerText n
  · have hdate : ofDateText? (integerText n) = none := by
      rw [ofDateText?, trim_integerText, Calendar.readDate?_integerText,
        Calendar.readDateTime?_integerText]
      rfl
    rw [ofKind?, hdate]
    rfl
  · rw [ofKind?, Calendar.readDateTime?_integerText]
    rfl
  · rw [ofKind?, trim_integerText, Uuid.read?_integerText hn]
    rfl

/-- As an integer, it is too. -/
theorem readInteger_integerText (n : Int) :
    readInteger (.string (integerText n)) = readInteger (.int n) := by
  unfold readInteger
  dsimp only
  rw [trim_integerText, readSigned?_integerText]
  rfl

end Scalar
end Listing

/-
# The length of a phrase

A phrase is what a search was asked for, without the blanks around it, and of that the longest
leading part within the limit. Where there is more than the limit allows, the place to cut is found
within three steps, since a character takes at most four bytes, so that of any four places in a row
one is the end of a character. For the same reason the search ends before it would go below the
first byte.
-/
import Listing.Proofs.JsonTexts
import Listing.Proofs.PhraseSearch

namespace Listing

namespace Text

/-- The longest leading part that has room ends at most three bytes before the limit. -/
theorem le_length_fitting {room : Nat} {cs : List Char} (hlong : room < (encode cs).length) :
    room ≤ (encode (fitting room cs)).length + 3 := by
  obtain ⟨behind, hbehind⟩ := prefix_of_fitting room cs
  cases behind with
  | nil =>
      rw [List.append_nil] at hbehind
      have hfit := length_fitting_le room cs
      rw [hbehind] at hfit
      omega
  | cons c behind =>
      -- With one character more, the leading part has no room any more.
      have hnext : fitting room cs ++ [c] <+: cs := ⟨behind, by simpa using hbehind⟩
      have hlonger : room < (encode (fitting room cs ++ [c])).length := by
        refine Nat.lt_of_not_le fun hroom => ?_
        have hlength := (prefix_fitting hnext hroom).length_le
        simp at hlength
      have hchar := c.utf8Size_le_four
      rw [encode_append, List.length_append] at hlonger
      simp only [encode, List.flatMap_singleton, String.length_utf8EncodeChar] at hlonger
      simp only [encode]
      omega

/-- Of a text that is too long, at most three places below the limit are passed over before one is
found. -/
theorem boundaryBelow?_of_long {room : Nat} {s : String} (hlong : room < s.utf8ByteSize) :
    ∃ steps ≤ 3, steps ≤ room ∧
      (∀ i < steps, isBoundary (encode s.toList) (room - i) = false) ∧
      boundaryBelow? (encode s.toList) room = some (room - steps) ∧
      sliceTo? (encode s.toList) (room - steps) = some (truncate room s) := by
  have hfit := length_fitting_le room s.toList
  have hnear : room ≤ (encode (fitting room s.toList)).length + 3 :=
    le_length_fitting (by rwa [length_encode])
  have hplace : room - (room - (encode (fitting room s.toList)).length) =
      (encode (fitting room s.toList)).length := by omega
  refine ⟨room - (encode (fitting room s.toList)).length, by omega, by omega, ?_, ?_, ?_⟩
  · intro i hi
    have hlonger : (encode (fitting room s.toList)).length < room - i := by omega
    exact isBoundary_of_length_lt hlonger (Nat.sub_le room i)
  · rw [hplace, boundaryBelow?_encode]
  · rw [hplace, sliceTo?_of_prefix (prefix_of_fitting room s.toList), truncate_eq]

end Text

namespace FullText

variable {param : String} {key : FullTextKey} {value : Json} {resource : Resource} {f : FullText}

/-- A phrase comes from a text, or from texts with spaces between them. -/
theorem eq_of_phrase? {text : String} (hphrase : phrase? value = .ok text) :
    value = .string text ∨ ∃ texts, value = Json.strings texts ∧ text = " ".intercalate texts := by
  unfold phrase? at hphrase
  split at hphrase
  · cases hphrase
    exact .inl rfl
  · rename_i items
    split at hphrase
    · rename_i texts htexts
      cases hphrase
      exact .inr ⟨texts, congrArg Json.array (Json.mapM_asString?_eq_some.1 htexts), rfl⟩
    · cases hphrase
  · cases hphrase

/-- A text that is not empty without the blanks around it is searched for. -/
theorem ofKey_string (param : String) (key : FullTextKey) (resource : Resource)
    {text phrase : String} (hphrase : Text.truncate maxLength (Text.trim text) = phrase)
    (hnonempty : phrase ≠ "") : ofKey param key (.string text) resource = .ok {
      param
      phrase
      attributes := if key.attributes.isEmpty then resource.fullText else key.attributes
      requireAll := key.requireAll.getD resource.fullTextRequireAll } := by
  have hempty : phrase.isEmpty = false := by simpa using hnonempty
  simp [ofKey, phrase?, hphrase, hempty]

/-- The phrase of a search is the longest leading part, within the limit, of what was asked for
without the blanks around it, and it has a word. If that is more than the limit allows, then a place
to cut is found within three steps down from the limit, and it is not below the first byte. -/
theorem phrase_is_longest (hkey : ofKey param key value resource = .ok f) :
    ∃ text : String,
      (value = .string text ∨ ∃ texts, value = Json.strings texts ∧ text = " ".intercalate texts) ∧
      f.phrase.toList <+: (Text.trim text).toList ∧ f.phrase.utf8ByteSize ≤ maxLength ∧
      (∀ front : String, front.toList <+: (Text.trim text).toList →
        front.utf8ByteSize ≤ maxLength → front.toList <+: f.phrase.toList) ∧
      f.words ≠ [] ∧
      (maxLength < (Text.trim text).utf8ByteSize →
        ∃ steps ≤ 3, steps ≤ maxLength ∧
          (∀ i < steps,
            Text.isBoundary (Text.encode (Text.trim text).toList) (maxLength - i) = false) ∧
          Text.boundaryBelow? (Text.encode (Text.trim text).toList) maxLength =
            some (maxLength - steps) ∧
          Text.sliceTo? (Text.encode (Text.trim text).toList) (maxLength - steps) =
            some f.phrase) := by
  have hwords := words_ne_nil_of_ofKey hkey
  unfold ofKey at hkey
  split at hkey
  · cases hkey
  · rename_i text htext
    dsimp only at hkey
    split at hkey
    · cases hkey
    · cases hkey
      refine ⟨text, eq_of_phrase? htext, ?_, ?_, ?_, hwords, fun hlong => ?_⟩
      · rw [Text.truncate_eq, String.toList_ofList]
        exact Text.prefix_of_fitting maxLength _
      · rw [← Text.length_encode, Text.truncate_eq, String.toList_ofList]
        exact Text.length_fitting_le maxLength _
      · intro front hfront hroom
        rw [Text.truncate_eq, String.toList_ofList]
        exact Text.prefix_fitting hfront (by rwa [Text.length_encode])
      · dsimp only
        exact Text.boundaryBelow?_of_long hlong

end FullText

namespace Furniture

/-- Letters of one byte, and then one of two. -/
def letters (count : Nat) : String := String.ofList (List.replicate count 'a' ++ ['é'])

theorem utf8ByteSize_letters (count : Nat) : (letters count).utf8ByteSize = count + 2 := by
  have hascii : (Text.encode (List.replicate count 'a')).length = count := by
    induction count with
    | zero => rfl
    | succ count ih =>
        rw [List.replicate_succ, Text.encode_cons, List.length_append, ih, Nat.add_comm]
        rfl
  rw [← Text.length_encode, letters, String.toList_ofList, Text.encode_append, List.length_append,
    hascii]
  rfl

theorem trim_letters (count : Nat) : Text.trim (letters count) = letters count := by
  refine Text.trim_of_forall fun c hc => ?_
  rw [letters, String.toList_ofList] at hc
  rcases List.mem_append.1 hc with hletter | hlast
  · rw [List.eq_of_mem_replicate hletter]
    decide
  · rw [List.mem_singleton.1 hlast]
    decide

/-- If the limit is in the middle of the last letter, the text is cut in front of it. -/
theorem truncate_letters (count : Nat) :
    Text.truncate (count + 1) (letters count) = String.ofList (List.replicate count 'a') := by
  have hfitting : Text.fitting (count + 1) (List.replicate count 'a' ++ ['é']) =
      List.replicate count 'a' := by
    induction count with
    | zero => rfl
    | succ count ih =>
        have hroom : 'a'.utf8Size ≤ count + 1 + 1 := Nat.le_add_left 1 (count + 1)
        rw [List.replicate_succ, List.cons_append, Text.fitting, if_pos hroom]
        exact congrArg _ ih
  rw [Text.truncate_eq, letters, String.toList_ofList, hfitting]

theorem ofList_replicate_ne {count : Nat} (hcount : count ≠ 0) :
    String.ofList (List.replicate count 'a') ≠ "" := by
  rw [← String.toList_inj.ne, String.toList_ofList]
  exact fun hnil => hcount (List.replicate_eq_nil_iff 'a' |>.1 hnil)

/-- A phrase of just more bytes than the limit allows is cut in front of its last letter. -/
theorem phrase_is_longest_letters :
    ∃ f, FullText.ofKey "q" {} (.string (letters 9999)) resource = .ok f ∧
      f.phrase = String.ofList (List.replicate 9999 'a') ∧ f.words ≠ [] ∧
      FullText.maxLength < (letters 9999).utf8ByteSize ∧
      ∃ steps ≤ 3, Text.boundaryBelow? (Text.encode (letters 9999).toList) FullText.maxLength =
        some (FullText.maxLength - steps) := by
  have hphrase : Text.truncate FullText.maxLength (Text.trim (letters 9999)) =
      String.ofList (List.replicate 9999 'a') := by
    rw [trim_letters]
    exact truncate_letters 9999
  have hkey := FullText.ofKey_string "q" {} resource hphrase (ofList_replicate_ne (by decide))
  have hlong : FullText.maxLength < (letters 9999).utf8ByteSize := by
    rw [utf8ByteSize_letters]
    decide
  obtain ⟨text, hvalue, -, -, -, hwords, hsteps⟩ := FullText.phrase_is_longest hkey
  obtain rfl : letters 9999 = text := by
    rcases hvalue with htext | ⟨texts, htexts, -⟩
    · exact Json.string.inj htext
    · cases htexts
  rw [trim_letters] at hsteps
  obtain ⟨steps, hfew, -, -, hfound, -⟩ := hsteps hlong
  exact ⟨_, hkey, rfl, hwords, hlong, steps, hfew, hfound⟩

end Furniture
end Listing

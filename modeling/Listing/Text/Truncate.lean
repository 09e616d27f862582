/-
# Cutting a text short

A text that takes too many bytes is cut at the last place within the limit where a character ends.
The place is searched from the limit downwards, byte by byte: a text may be cut at its ends and in
front of each byte that begins a character. A search that would go below the first byte, and a cut
through the middle of a character, are failures; neither happens, since what is found is the end of
the longest leading part of the text that has room.
-/

namespace Listing.Text

/-- The bytes of characters. -/
def encode (cs : List Char) : List UInt8 := cs.flatMap String.utf8EncodeChar

/-- Whether a byte begins a character; all others continue one. -/
def beginsChar (b : UInt8) : Bool := b.toNat < 128 || 192 ≤ b.toNat

/-- Whether a text may be cut in front of the byte with an index. -/
def isBoundary (bytes : List UInt8) (index : Nat) : Bool :=
  index == 0 || match bytes[index]? with
    | some b => beginsChar b
    | none => index == bytes.length

/-- The first place to cut that is met on the way down from an index. -/
def boundaryBelow? (bytes : List UInt8) : Nat → Option Nat
  | 0 => if isBoundary bytes 0 then some 0 else none
  | index + 1 =>
    if isBoundary bytes (index + 1) then some (index + 1) else boundaryBelow? bytes index

/-- The text in front of an index. -/
def sliceTo? (bytes : List UInt8) (index : Nat) : Option String :=
  if isBoundary bytes index then String.fromUTF8? (bytes.take index).toByteArray else none

/-- The text if it takes at most `room` bytes, and else as much of it as does. -/
def truncate? (room : Nat) (s : String) : Option String :=
  if s.utf8ByteSize ≤ room then some s
  else
    let bytes := encode s.toList
    (boundaryBelow? bytes room).bind (sliceTo? bytes)

/-- The longest leading part of a text that takes at most `room` bytes. -/
def fitting (room : Nat) : List Char → List Char
  | [] => []
  | c :: cs => if c.utf8Size ≤ room then c :: fitting (room - c.utf8Size) cs else []

/-! ### Bytes -/

@[simp]
theorem encode_cons (c : Char) (cs : List Char) :
    encode (c :: cs) = String.utf8EncodeChar c ++ encode cs := List.flatMap_cons

@[simp]
theorem encode_append (cs ds : List Char) : encode (cs ++ ds) = encode cs ++ encode ds :=
  List.flatMap_append

theorem length_encode (s : String) : (encode s.toList).length = s.utf8ByteSize := by
  conv => rhs; rw [← String.ofList_toList (s := s)]
  rw [← String.size_toByteArray, String.toByteArray_ofList]
  exact List.size_toByteArray.symm

/-- The first byte of a character begins it, and no other does. -/
theorem utf8EncodeChar_eq_cons (c : Char) : ∃ b bs, String.utf8EncodeChar c = b :: bs ∧
    beginsChar b = true ∧ ∀ b' ∈ bs, beginsChar b' = false := by
  unfold String.utf8EncodeChar
  dsimp only
  generalize c.val.toNat = v
  split
  · refine ⟨_, _, rfl, ?_, by simp⟩
    simp [beginsChar]
    omega
  · split
    · refine ⟨_, _, rfl, ?_, ?_⟩ <;> simp [beginsChar] <;> omega
    · split <;> refine ⟨_, _, rfl, ?_, ?_⟩ <;> simp [beginsChar] <;> omega

/-! ### Places to cut -/

theorem isBoundary_zero (bytes : List UInt8) : isBoundary bytes 0 = true := rfl

/-- Beyond the first index, a text may be cut at its end and in front of a byte that begins a
character. -/
theorem isBoundary_of_pos {bytes : List UInt8} {index : Nat} (hpos : 0 < index) :
    isBoundary bytes index = match bytes[index]? with
      | some b => beginsChar b
      | none => index == bytes.length := by
  have hzero : (index == 0) = false := beq_false_of_ne (Nat.ne_of_gt hpos)
  rw [isBoundary, hzero, Bool.false_or]

/-- Behind a character, a text may be cut where the rest may be cut. -/
theorem isBoundary_append {c : Char} {cs : List Char} (i : Nat) :
    isBoundary (encode (c :: cs)) ((String.utf8EncodeChar c).length + i) =
      isBoundary (encode cs) i := by
  obtain ⟨b, bs, hchar, -, -⟩ := utf8EncodeChar_eq_cons c
  have hpos : 0 < (String.utf8EncodeChar c).length + i := by
    rw [hchar, List.length_cons]
    omega
  rw [isBoundary_of_pos hpos, encode_cons, List.getElem?_append_right (Nat.le_add_right _ _),
    Nat.add_sub_cancel_left, List.length_append]
  cases i with
  | zero =>
      -- The rest is empty, or its first byte begins a character.
      cases cs with
      | nil => simp [encode, isBoundary_zero]
      | cons d ds =>
          obtain ⟨b', bs', hnext, hbegins, -⟩ := utf8EncodeChar_eq_cons d
          simp [hnext, hbegins, isBoundary_zero]
  | succ i =>
      rw [isBoundary_of_pos (Nat.succ_pos i)]
      cases (encode cs)[i + 1]? with
      | some b' => rfl
      | none => simp [Bool.beq_eq_decide_eq]

/-- A text may be cut in front of its first character, and where the rest may be cut. -/
theorem isBoundary_encode_cons {c : Char} {cs : List Char} {index : Nat} :
    isBoundary (encode (c :: cs)) index = true ↔
      index = 0 ∨ ∃ i, index = (String.utf8EncodeChar c).length + i ∧
        isBoundary (encode cs) i = true := by
  constructor
  · intro hboundary
    by_cases hinside : index < (String.utf8EncodeChar c).length
    · cases index with
      | zero => exact .inl rfl
      | succ k =>
          -- A byte in the middle of the first character continues it.
          exfalso
          obtain ⟨b, bs, hchar, -, hcontinues⟩ := utf8EncodeChar_eq_cons c
          rw [hchar, List.length_cons, Nat.add_lt_add_iff_right] at hinside
          have hbyte : (encode (c :: cs))[k + 1]? = some bs[k] := by
            rw [encode_cons, hchar, List.cons_append, List.getElem?_cons_succ,
              List.getElem?_append_left hinside, List.getElem?_eq_getElem hinside]
          rw [isBoundary_of_pos (Nat.succ_pos k), hbyte] at hboundary
          simp [hcontinues _ (List.getElem_mem hinside)] at hboundary
    · obtain ⟨i, rfl⟩ := Nat.exists_eq_add_of_le (Nat.le_of_not_lt hinside)
      exact .inr ⟨i, rfl, (isBoundary_append i).symm.trans hboundary⟩
  · rintro (rfl | ⟨i, rfl, hi⟩)
    · exact isBoundary_zero _
    · exact (isBoundary_append i).trans hi

/-- A text may be cut where one of its leading parts ends, and nowhere else. -/
theorem isBoundary_encode_iff {cs : List Char} {index : Nat} :
    isBoundary (encode cs) index = true ↔ ∃ front, front <+: cs ∧ (encode front).length = index := by
  induction cs generalizing index with
  | nil =>
      cases index <;> simp [isBoundary, encode]
  | cons c cs ih =>
      rw [isBoundary_encode_cons]
      constructor
      · rintro (rfl | ⟨i, rfl, hi⟩)
        · exact ⟨[], List.nil_prefix, rfl⟩
        · obtain ⟨front, hfront, rfl⟩ := ih.1 hi
          exact ⟨c :: front, (List.prefix_cons_inj c).2 hfront, by simp⟩
      · rintro ⟨front, hfront, rfl⟩
        cases front with
        | nil => exact .inl rfl
        | cons d front =>
            obtain ⟨rfl, hrest⟩ := List.cons_prefix_cons.1 hfront
            exact .inr ⟨(encode front).length, by simp, ih.2 ⟨front, hrest, rfl⟩⟩

/-! ### The longest part that has room -/

theorem prefix_of_fitting (room : Nat) (cs : List Char) : fitting room cs <+: cs := by
  induction cs generalizing room with
  | nil => exact List.prefix_rfl
  | cons c cs ih =>
      rw [fitting]
      split
      · exact (List.prefix_cons_inj c).2 (ih _)
      · exact List.nil_prefix

theorem length_fitting_le (room : Nat) (cs : List Char) :
    (encode (fitting room cs)).length ≤ room := by
  induction cs generalizing room with
  | nil => exact Nat.zero_le room
  | cons c cs ih =>
      rw [fitting]
      split
      · rename_i hroom
        have hrest := ih (room - c.utf8Size)
        rw [encode_cons, List.length_append, String.length_utf8EncodeChar]
        omega
      · exact Nat.zero_le room

/-- A leading part that has room is no longer than the longest one. -/
theorem prefix_fitting {room : Nat} {front cs : List Char} (hfront : front <+: cs)
    (hroom : (encode front).length ≤ room) : front <+: fitting room cs := by
  induction cs generalizing room front with
  | nil => exact hfront
  | cons c cs ih =>
      cases front with
      | nil => exact List.nil_prefix
      | cons d front =>
          obtain ⟨rfl, hrest⟩ := List.cons_prefix_cons.1 hfront
          rw [encode_cons, List.length_append, String.length_utf8EncodeChar] at hroom
          rw [fitting, if_pos (by omega)]
          exact (List.prefix_cons_inj d).2 (ih hrest (by omega))

/-- A search that meets no place to cut before a place ends there. -/
theorem boundaryBelow?_eq {bytes : List UInt8} {room index : Nat} (hle : index ≤ room)
    (hindex : isBoundary bytes index = true)
    (hnone : ∀ i, index < i → i ≤ room → isBoundary bytes i = false) :
    boundaryBelow? bytes room = some index := by
  induction room with
  | zero =>
      obtain rfl := Nat.le_zero.1 hle
      exact if_pos rfl
  | succ room ih =>
      rw [boundaryBelow?]
      rcases Nat.lt_or_eq_of_le hle with hlt | rfl
      · rw [hnone _ hlt (Nat.le_refl _), if_neg (by decide)]
        exact ih (Nat.le_of_lt_succ hlt) fun i hi hroom => hnone i hi (Nat.le_succ_of_le hroom)
      · rw [if_pos hindex]

/-- Between the end of the longest leading part that has room and the limit there is no place to
cut. -/
theorem isBoundary_of_length_lt {room i : Nat} {cs : List Char}
    (hlonger : (encode (fitting room cs)).length < i) (hroom : i ≤ room) :
    isBoundary (encode cs) i = false := by
  rw [Bool.eq_false_iff]
  intro hboundary
  obtain ⟨front, hfront, rfl⟩ := isBoundary_encode_iff.1 hboundary
  obtain ⟨behind, hbehind⟩ := prefix_fitting hfront hroom
  rw [← hbehind, encode_append, List.length_append] at hlonger
  omega

/-- The place that is found is the end of the longest leading part that has room. -/
theorem boundaryBelow?_encode (room : Nat) (cs : List Char) :
    boundaryBelow? (encode cs) room = some (encode (fitting room cs)).length :=
  boundaryBelow?_eq (length_fitting_le room cs)
    (isBoundary_encode_iff.2 ⟨_, prefix_of_fitting room cs, rfl⟩)
    fun _ hlonger hroom => isBoundary_of_length_lt hlonger hroom

/-- Cutting where a leading part ends gives this part. -/
theorem sliceTo?_of_prefix {front cs : List Char} (hfront : front <+: cs) :
    sliceTo? (encode cs) (encode front).length = some (String.ofList front) := by
  have hboundary : isBoundary (encode cs) (encode front).length = true :=
    isBoundary_encode_iff.2 ⟨front, hfront, rfl⟩
  have htake : (encode cs).take (encode front).length = encode front := by
    obtain ⟨behind, rfl⟩ := hfront
    rw [encode_append, List.take_left]
  rw [sliceTo?, if_pos hboundary, htake, String.fromUTF8?, dif_pos ⟨front, rfl⟩]
  rfl

/-- Neither the search nor the cut fails, and what they give is the longest leading part that has
room. -/
theorem truncate?_eq (room : Nat) (s : String) :
    truncate? room s = some (String.ofList (fitting room s.toList)) := by
  rw [truncate?]
  split
  · rename_i hroom
    have hall : s.toList <+: fitting room s.toList :=
      prefix_fitting List.prefix_rfl (by rwa [length_encode])
    have hsame := hall.eq_of_length_le (prefix_of_fitting room s.toList).length_le
    rw [← hsame, String.ofList_toList]
  · dsimp only
    rw [boundaryBelow?_encode, Option.bind_some, sliceTo?_of_prefix (prefix_of_fitting room s.toList)]

/-- The text if it takes at most `room` bytes, and else the longest leading part that does. -/
def truncate (room : Nat) (s : String) : String :=
  (truncate? room s).get (by rw [truncate?_eq]; rfl)

theorem truncate_eq (room : Nat) (s : String) :
    truncate room s = String.ofList (fitting room s.toList) := by
  rw [truncate, Option.get_of_eq_some _ (truncate?_eq room s)]

end Listing.Text

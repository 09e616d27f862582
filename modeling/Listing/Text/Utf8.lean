/-
# Reading bytes as UTF-8

A decoder that never fails: each longest sequence of bytes that no UTF-8 text can hold is read as
one U+FFFD. It runs over the bytes once and keeps what it still expects of the sequence it is in.
-/

namespace Listing.Text.Utf8

/-- What the decoder is in the middle of: how many bytes are still missing, the range the next one
must fall in, and the value of the bits read so far. -/
inductive Expecting
  | start
  | more (missing : Nat) (low high : UInt8) (value : Nat)
  deriving Repr

/-- The character put in place of bytes that are no UTF-8. -/
def replacement : Char := Char.ofNat 0xFFFD

/-- What the first byte of a sequence makes the decoder expect; `none` for a byte that starts
nothing. An ASCII byte is a character by itself and is not asked for here. -/
def lead (b : UInt8) : Option Expecting :=
  if 0xC2 ≤ b && b ≤ 0xDF then some (.more 1 0x80 0xBF (b.toNat - 0xC0))
  else if b == 0xE0 then some (.more 2 0xA0 0xBF 0)
  else if b == 0xED then some (.more 2 0x80 0x9F 0x0D)
  else if 0xE1 ≤ b && b ≤ 0xEF then some (.more 2 0x80 0xBF (b.toNat - 0xE0))
  else if b == 0xF0 then some (.more 3 0x90 0xBF 0)
  else if 0xF1 ≤ b && b ≤ 0xF3 then some (.more 3 0x80 0xBF (b.toNat - 0xF0))
  else if b == 0xF4 then some (.more 3 0x80 0x8F 4)
  else none

/-- Read a byte at the start of a sequence: the characters it completes and what follows it. -/
def begin (b : UInt8) : List Char × Expecting :=
  if b < 0x80 then ([Char.ofNat b.toNat], .start)
  else match lead b with
    | some state => ([], state)
    | none => ([replacement], .start)

/-- Read one byte. A byte that does not continue the sequence ends it as a replacement character
and is then read as the start of the next. -/
def step : Expecting → UInt8 → List Char × Expecting
  | .start, b => begin b
  | .more missing low high value, b =>
    if low ≤ b && b ≤ high then
      let value := value * 64 + (b.toNat - 0x80)
      if missing ≤ 1 then ([Char.ofNat value], .start)
      else ([], .more (missing - 1) 0x80 0xBF value)
    else
      let (done, state) := begin b
      (replacement :: done, state)

/-- The characters of the bytes, read from a state. -/
def decodeFrom : Expecting → List UInt8 → List Char
  | .start, [] => []
  | .more .., [] => [replacement]
  | state, b :: bytes =>
    let (done, next) := step state b
    done ++ decodeFrom next bytes

/-- The text that the bytes hold, with U+FFFD for what is no UTF-8. -/
def decode (bytes : List UInt8) : String := String.ofList (decodeFrom .start bytes)

/-- The bytes of a text. -/
def encode (s : String) : List UInt8 := s.toUTF8.toList

end Listing.Text.Utf8

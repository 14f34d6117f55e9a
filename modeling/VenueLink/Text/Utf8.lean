/-!
# UTF-8

Text as bytes and back. Bytes are numbers below 256. `decode` goes through the bytes once and
gives, in order, the characters and a `none` for each sequence that is broken off or was never
begun; `decodeAll?` refuses such bytes, `decodeLossy` puts the replacement character in their
place.
-/

namespace VenueLink.Text.Utf8

/-- The bytes of a character. -/
def encodeChar (c : Char) : List Nat :=
  let n := c.toNat
  if n < 0x80 then [n]
  else if n < 0x800 then [0xC0 + n / 64, 0x80 + n % 64]
  else if n < 0x10000 then [0xE0 + n / 4096, 0x80 + n / 64 % 64, 0x80 + n % 64]
  else [0xF0 + n / 262144, 0x80 + n / 4096 % 64, 0x80 + n / 64 % 64, 0x80 + n % 64]

/-- The bytes of a text. -/
def encode (cs : List Char) : List Nat :=
  cs.flatMap encodeChar

/-- A character that is not complete: the bits so far, how many bytes are missing, and the
bounds of the next one. -/
structure Partial where
  value : Nat
  missing : Nat
  low : Nat := 0x80
  high : Nat := 0xBF

/-- The start of a character of several bytes. The bounds of the second byte leave out overlong
forms, surrogates and numbers that are too large. -/
def lead? (b : Nat) : Option Partial :=
  if 0xC2 ≤ b && b ≤ 0xDF then some { value := b - 0xC0, missing := 1 }
  else if b = 0xE0 then some { value := 0, missing := 2, low := 0xA0 }
  else if b = 0xED then some { value := 13, missing := 2, high := 0x9F }
  else if 0xE1 ≤ b && b ≤ 0xEF then some { value := b - 0xE0, missing := 2 }
  else if b = 0xF0 then some { value := 0, missing := 3, low := 0x90 }
  else if b = 0xF4 then some { value := 4, missing := 3, high := 0x8F }
  else if 0xF1 ≤ b && b ≤ 0xF3 then some { value := b - 0xF0, missing := 3 }
  else none

/-- The characters of bytes that follow an incomplete one, if there is one. -/
def decodeFrom : Option Partial → List Nat → List (Option Char)
  | none, [] => []
  | some _, [] => [none]
  | none, b :: rest =>
    if b < 0x80 then some (Char.ofNat b) :: decodeFrom none rest
    else match lead? b with
      | some p => decodeFrom (some p) rest
      | none => none :: decodeFrom none rest
  | some p, b :: rest =>
    if p.low ≤ b && b ≤ p.high then
      let value := p.value * 64 + (b - 0x80)
      if p.missing = 1 then some (Char.ofNat value) :: decodeFrom none rest
      else decodeFrom (some { value := value, missing := p.missing - 1 }) rest
    else if b < 0x80 then none :: some (Char.ofNat b) :: decodeFrom none rest
    else match lead? b with
      | some p => none :: decodeFrom (some p) rest
      | none => none :: none :: decodeFrom none rest

/-- The characters of bytes, with `none` for what is not UTF-8. -/
def decode (bytes : List Nat) : List (Option Char) :=
  decodeFrom none bytes

/-- The text of bytes that are UTF-8 throughout. -/
def decodeAll? (bytes : List Nat) : Option (List Char) :=
  (decode bytes).mapM id

/-- The text of bytes, with the replacement character for what is not UTF-8. -/
def decodeLossy (bytes : List Nat) : List Char :=
  (decode bytes).map (·.getD '\ufffd')

end VenueLink.Text.Utf8

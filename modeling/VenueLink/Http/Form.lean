import VenueLink.Text.Digits
import VenueLink.Text.Split
import VenueLink.Text.Utf8

/-!
# Percent-encoding and query strings

A query string is a list of fields between `&`, each a name and a value with `=` between them.
In both, `+` stands for a blank and `%` with two hexadecimal digits for a byte. `encodeValue`
writes a value in such a way that it is read back.
-/

namespace VenueLink.Http.Form

/-- The value of a byte that is a hexadecimal digit. -/
def hexByte? (b : Nat) : Option Nat :=
  if b < 0x80 then Text.hexValue? (Char.ofNat b) else none

/-- Replace each `%` and the two hexadecimal digits after it by the byte that they stand for. A
`%` without them stands for itself. -/
def percentDecode : List Nat → List Nat
  | 37 :: x :: y :: rest =>
    match hexByte? x, hexByte? y with
    | some h, some l => (h * 16 + l) :: percentDecode rest
    | _, _ => 37 :: percentDecode (x :: y :: rest)
  | b :: rest => b :: percentDecode rest
  | [] => []

/-- Replace each `+` by a blank. -/
def plusToBlank (bytes : List Nat) : List Nat :=
  bytes.map fun b => if b = 43 then 32 else b

/-- A name or a value of a query string. -/
def decodeValue (cs : List Char) : String :=
  String.ofList (Text.Utf8.decodeLossy (percentDecode (plusToBlank (Text.Utf8.encode cs))))

/-- A part of a path, if it is UTF-8. -/
def decodeSegment? (cs : List Char) : Option String :=
  (Text.Utf8.decodeAll? (percentDecode (Text.Utf8.encode cs))).map String.ofList

/-- A hexadecimal digit, in capitals. -/
def hexDigit (n : Nat) : Char :=
  if n < 10 then Char.ofNat (48 + n) else Char.ofNat (55 + n)

/-- A byte as `%` and two hexadecimal digits. -/
def percentEncodeByte (b : Nat) : List Char :=
  ['%', hexDigit (b / 16), hexDigit (b % 16)]

/-- A value with every byte percent-encoded. -/
def encodeValue (s : String) : List Char :=
  (Text.Utf8.encode s.toList).flatMap percentEncodeByte

/-- The name and the value of a field; a field without `=` has the empty value. -/
def field (cs : List Char) : String × String :=
  (decodeValue (cs.takeWhile (· != '=')), decodeValue ((cs.dropWhile (· != '=')).drop 1))

/-- The fields of a query string, in order. Empty ones are passed over. -/
def fields (query : String) : List (String × String) :=
  ((Text.splitOn '&' query.toList).filter (!·.isEmpty)).map field

/-- The value of a field, or `none` in place of an error where the field is repeated. -/
def value? (name : String) (fs : List (String × String)) : Option (Option String) :=
  match fs.filter (·.1 = name) with
  | [] => some none
  | [f] => some (some f.2)
  | _ => none

end VenueLink.Http.Form

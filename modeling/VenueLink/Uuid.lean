import VenueLink.Text.Digits

/-!
# Universally unique identifiers

A number of 128 bits, written as 32 hexadecimal digits in five groups. It is read with or
without the hyphens; with them also in braces or after `urn:uuid:`, and with digits of either
case.
-/

namespace VenueLink

/-- How many identifiers there are: the 128th power of two. -/
def Uuid.count : Nat := 340282366920938463463374607431768211456

/-- A number of 128 bits. -/
structure Uuid where
  value : Nat
  value_lt : value < Uuid.count
deriving DecidableEq

namespace Uuid

instance : Inhabited Uuid := ⟨⟨0, by decide⟩⟩

/-- The identifier of a number; only its last 128 bits count. -/
def ofNat (n : Nat) : Uuid :=
  ⟨n % count, Nat.mod_lt _ (by decide)⟩

/-- The last `width` hexadecimal digits of a number, in small letters. -/
def hexDigits : (width n : Nat) → List Char
  | 0, _ => []
  | width + 1, n => hexDigits width (n / 16) ++ [Nat.digitChar (n % 16)]

/-- Five groups of digits with hyphens between them. -/
def text (u : Uuid) : String :=
  let ds := hexDigits 32 u.value
  String.ofList (ds.take 8 ++ '-' :: (ds.drop 8).take 4 ++ '-' :: (ds.drop 12).take 4 ++
    '-' :: (ds.drop 16).take 4 ++ '-' :: ds.drop 20)

/-- The number of hexadecimal digits. -/
def readHex? (acc : Nat) : List Char → Option Nat
  | [] => some acc
  | c :: cs => do
    let d ← Text.hexValue? c
    readHex? (acc * 16 + d) cs

/-- 32 digits without hyphens. -/
def ofDigits? (cs : List Char) : Option Uuid :=
  if cs.length = 32 then (readHex? 0 cs).map ofNat else none

/-- 32 digits with hyphens after the eighth, twelfth, sixteenth and twentieth. -/
def ofHyphened? (cs : List Char) : Option Uuid :=
  if cs.length = 36 && [8, 13, 18, 23].all (fun i => cs[i]? = some '-') then
    ofDigits? (cs.take 8 ++ (cs.drop 9).take 4 ++ (cs.drop 14).take 4 ++ (cs.drop 19).take 4 ++
      cs.drop 24)
  else none

/-- The characters before the identifier in its longest form. -/
def urn : List Char := "urn:uuid:".toList

/-- An identifier in any of its four forms. -/
def ofText? (s : String) : Option Uuid :=
  let cs := s.toList
  match cs with
  | '\x7b' :: r => if r.getLast? = some '\x7d' then ofHyphened? r.dropLast else none
  | _ =>
    if urn.isPrefixOf cs then ofHyphened? (cs.drop 9)
    else (ofDigits? cs).orElse fun _ => ofHyphened? cs

end Uuid

end VenueLink

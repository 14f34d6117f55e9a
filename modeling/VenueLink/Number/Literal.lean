import VenueLink.Number.Double
import VenueLink.Text.Ascii
import VenueLink.Text.Digits

/-!
# Doubles read from text

There are two ways to read a double. A numeric text, as found in a quoted field, denotes the
double nearest to its value (`Double.ofText?`). A number of a JSON document is read in two
roundings (`Double.ofLiteral`): first its digits as one integer, then that integer scaled by a
power of ten. The two agree while the digits stay below `2 ^ 53` and the power within `10 ^ 22`.
-/

namespace VenueLink

namespace Double

/-- The double nearest to `10 ^ k`. -/
def powerOfTen (k : Nat) : Double :=
  nearest false (Nat.pow 10 k) 1

/-- `digits · 10 ^ exponent`, with the digits rounded to a double before they are scaled and
with the largest power of ten that is a double, `10 ^ 308`, divided out first where one division
does not suffice. -/
def ofLiteral (negative : Bool) (digits : Nat) (exponent : Int) : Double :=
  let f := nearest false digits 1
  let magnitude :=
    if 0 ≤ exponent then
      if exponent ≤ 308 then f.times (powerOfTen exponent.toNat)
      else if f.isZero then f
      else infinite false
    else
      let k := (-exponent).toNat
      if k ≤ 308 then f.dividedBy (powerOfTen k)
      else if k ≤ 616 then (f.dividedBy (powerOfTen 308)).dividedBy (powerOfTen (k - 308))
      else zero
  if negative then magnitude.negate else magnitude

/-- The double nearest to `digits · 10 ^ exponent`. Powers that no double comes near are cut off
before they are computed. -/
def ofDecimal (negative : Bool) (digits : Nat) (exponent : Int) : Double :=
  let top : Int := (Nat.toDigits 10 digits).length + exponent
  if digits = 0 then finite negative 0 minExponent
  else if 310 < top then infinite negative
  else if top < -330 then finite negative 0 minExponent
  else nearest negative (digits * Nat.pow 10 exponent.toNat) (Nat.pow 10 (-exponent).toNat)

/-- An exponent part, which may be absent: `e`, an optional sign, and digits to the end. -/
def readExponent? : List Char → Option Int
  | [] => some 0
  | 'e' :: cs => Text.readInt? cs
  | 'E' :: cs => Text.readInt? cs
  | _ => none

/-- A magnitude in decimal: digits with at most one point among or around them, then an optional
exponent. -/
def readMagnitude? (negative : Bool) (cs : List Char) : Option Double :=
  let whole := cs.takeWhile Char.isDigit
  let rest := cs.dropWhile Char.isDigit
  let (fraction, rest) := match rest with
    | '.' :: r => (r.takeWhile Char.isDigit, r.dropWhile Char.isDigit)
    | r => ([], r)
  if whole.isEmpty && fraction.isEmpty then none
  else
    (readExponent? rest).map fun e =>
      ofDecimal negative (Text.digitsValue (whole ++ fraction)) (e - fraction.length)

/-- An unsigned number in decimal or one of the words `inf`, `infinity` and `nan`. -/
def readUnsigned? (negative : Bool) (cs : List Char) : Option Double :=
  let word := Text.lowerAscii (String.ofList cs)
  if word == "inf" || word == "infinity" then some (infinite negative)
  else if word == "nan" then some nan
  else readMagnitude? negative cs

/-- The double nearest to the number that `s` writes, with an optional sign in front. -/
def ofText? (s : String) : Option Double :=
  match s.toList with
  | '-' :: cs => readUnsigned? true cs
  | '+' :: cs => readUnsigned? false cs
  | cs => readUnsigned? false cs

end Double

end VenueLink

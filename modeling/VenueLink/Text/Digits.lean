/-!
# Decimal digits

Numbers are written with `Nat.toDigits 10` and read with `Nat.ofDigitChars 10`; this module adds
padding to a width, signed integers, and the split of a text after its leading digits.
-/

namespace VenueLink.Text

/-- The value of a run of decimal digits; the empty run counts as zero. -/
def digitsValue (ds : List Char) : Nat :=
  Nat.ofDigitChars 10 ds 0

/-- A number of one or more decimal digits and nothing else. -/
def readNat? (cs : List Char) : Option Nat :=
  if !cs.isEmpty && cs.all Char.isDigit then some (digitsValue cs) else none

/-- An optional sign followed by one or more decimal digits. -/
def readInt? : List Char → Option Int
  | '-' :: cs => (readNat? cs).map fun n => -(n : Int)
  | '+' :: cs => (readNat? cs).map fun n => (n : Int)
  | cs => (readNat? cs).map fun n => (n : Int)

/-- The longest beginning of `cs` that holds at most `limit` decimal digits and nothing else,
and the rest. -/
def spanDigits (limit : Nat) (cs : List Char) : List Char × List Char :=
  let ds := (cs.take limit).takeWhile Char.isDigit
  (ds, cs.drop ds.length)

/-- `n` in decimal, with zeros in front up to `width` digits. -/
def padded (width n : Nat) : List Char :=
  let ds := Nat.toDigits 10 n
  List.replicate (width - ds.length) '0' ++ ds

/-- The value of a hexadecimal digit of either case. -/
def hexValue? (c : Char) : Option Nat :=
  if c.isDigit then some (c.toNat - 48)
  else if 97 ≤ c.toNat && c.toNat ≤ 102 then some (c.toNat - 87)
  else if 65 ≤ c.toNat && c.toNat ≤ 70 then some (c.toNat - 55)
  else none

/-- The smallest and largest 64-bit signed integers. -/
def minInt64 : Int := -9223372036854775808
def maxInt64 : Int := 9223372036854775807

/-- A signed decimal number within the 64-bit range. -/
def readInt64? (cs : List Char) : Option Int :=
  (readInt? cs).filter fun i => minInt64 ≤ i && i ≤ maxInt64

end VenueLink.Text

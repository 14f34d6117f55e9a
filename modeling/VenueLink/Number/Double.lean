/-!
# Double-precision numbers

A `Double` is a binary64 value written out as sign, mantissa and exponent, so that every
operation on it is exact arithmetic on natural numbers. `nearest` rounds a ratio of natural
numbers to the nearest double, a tie going to the even mantissa; conversions to and from
integers, products and quotients are all that rounding applied to the exact result.
-/

namespace VenueLink

/-- A binary64 value. A finite value is `± mantissa · 2 ^ exponent`, with the mantissa below
`2 ^ 53` and the exponent as small as that bound and `Double.minExponent` allow. -/
inductive Double where
  | nan
  | infinite (negative : Bool)
  | finite (negative : Bool) (mantissa : Nat) (exponent : Int)
deriving DecidableEq

namespace Double

/-- All mantissas are below this number, the 53rd power of two. -/
def mantissaBound : Nat := 9007199254740992

/-- The exponent of the smallest positive double. -/
def minExponent : Int := -1074

/-- The exponent of the largest finite double. -/
def maxExponent : Int := 971

/-- `n / d` rounded to the nearest natural number, a tie to the even one. -/
def roundHalfEven (n d : Nat) : Nat :=
  let q := n / d
  let r := n % d
  if 2 * r < d then q
  else if d < 2 * r then q + 1
  else q + q % 2

/-- `n / d · 2 ^ (-e)` as a ratio of natural numbers. -/
def scaled (n d : Nat) (e : Int) : Nat × Nat :=
  (n * Nat.pow 2 (-e).toNat, d * Nat.pow 2 e.toNat)

/-- The exponent at which `n / d` has a mantissa of 53 bits, or `minExponent` if that is larger.
-/
def exponentOf (n d : Nat) : Int :=
  let guess : Int := (n.log2 : Int) - d.log2 - 53
  let wide := scaled n d guess
  max minExponent (if wide.1 / wide.2 < mantissaBound then guess else guess + 1)

/-- `± m · 2 ^ e`, or an infinity where the exponent is out of range. -/
def bounded (negative : Bool) (m : Nat) (e : Int) : Double :=
  if maxExponent < e then infinite negative else finite negative m e

/-- The double nearest to `± n / d`, a tie going to the even mantissa. -/
def nearest (negative : Bool) (n d : Nat) : Double :=
  if n = 0 then finite negative 0 minExponent
  else
    let e := exponentOf n d
    let r := scaled n d e
    let m := roundHalfEven r.1 r.2
    if m = mantissaBound then bounded negative (mantissaBound / 2) (e + 1)
    else bounded negative m e

/-- `m · 2 ^ e` as a ratio of natural numbers. -/
def ratio (m : Nat) (e : Int) : Nat × Nat :=
  (m * Nat.pow 2 e.toNat, Nat.pow 2 (-e).toNat)

/-- The double nearest to an integer. -/
def ofInt (i : Int) : Double :=
  nearest (i < 0) i.natAbs 1

/-- Zero and one. -/
def zero : Double := finite false 0 minExponent
def one : Double := nearest false 1 1

/-- `-x`. -/
def negate : Double → Double
  | nan => nan
  | infinite s => infinite !s
  | finite s m e => finite (!s) m e

/-- Neither infinite nor a NaN. -/
def isFinite : Double → Bool
  | finite .. => true
  | _ => false

/-- Zero of either sign. -/
def isZero : Double → Bool
  | finite _ m _ => m == 0
  | _ => false

/-- Numerical equality: a NaN equals nothing, and the two zeros are equal. -/
def equals : Double → Double → Bool
  | infinite s, infinite t => s == t
  | finite s m e, finite t n f =>
    let low := min e f
    m * Nat.pow 2 (e - low).toNat == n * Nat.pow 2 (f - low).toNat && (s == t || m == 0)
  | _, _ => false

/-- The product of two doubles; only finite factors occur. -/
def times : Double → Double → Double
  | finite s m e, finite t n f =>
    let a := ratio m e
    let b := ratio n f
    nearest (s != t) (a.1 * b.1) (a.2 * b.2)
  | nan, _ => nan
  | _, nan => nan
  | infinite s, infinite t => infinite (s != t)
  | infinite s, finite t n _ => if n = 0 then nan else infinite (s != t)
  | finite s m _, infinite t => if m = 0 then nan else infinite (s != t)

/-- The quotient of two doubles. -/
def dividedBy : Double → Double → Double
  | finite s m e, finite t n f =>
    let a := ratio m e
    let b := ratio n f
    if n = 0 then (if m = 0 then nan else infinite (s != t))
    else nearest (s != t) (a.1 * b.2) (a.2 * b.1)
  | nan, _ => nan
  | _, nan => nan
  | infinite _, infinite _ => nan
  | infinite s, finite t _ _ => infinite (s != t)
  | finite s _ _, infinite t => finite (s != t) 0 minExponent

/-- The integer part of `m · 2 ^ e`. -/
def wholePart (m : Nat) (e : Int) : Nat :=
  m * Nat.pow 2 e.toNat / Nat.pow 2 (-e).toNat

/-- The integer part, cut to the range `low … high`; a NaN counts as zero. -/
def truncate (low high : Int) : Double → Int
  | nan => 0
  | infinite s => if s then low else high
  | finite s m e =>
    let whole : Int := wholePart m e
    max low (min high (if s then -whole else whole))

end Double

end VenueLink

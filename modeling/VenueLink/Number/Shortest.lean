import VenueLink.Number.Double

/-!
# Shortest decimal text of a double

`Double.shortest` finds the fewest decimal digits that are still nearer to a given double than
to any other, and among those the digits nearest to the double. `Double.text` writes them with a
point or an exponent, `Double.plainText` always with a point where one is needed.
-/

namespace VenueLink

namespace Double

/-- `10 ^ k` as a ratio of natural numbers. -/
def tenPower (k : Int) : Nat × Nat :=
  (Nat.pow 10 k.toNat, Nat.pow 10 (-k).toNat)

/-- `10 ^ k ≤ m · 2 ^ e`. -/
def atLeastTenPower (m : Nat) (e k : Int) : Bool :=
  let v := ratio m e
  let t := tenPower k
  t.1 * v.2 ≤ v.1 * t.2

/-- The largest `k` with `10 ^ k ≤ m · 2 ^ e`, for a mantissa above zero. -/
def decimalExponent (m : Nat) (e : Int) : Int :=
  let low := ((m.log2 : Int) + e) * 30103 / 100000 - 1
  if atLeastTenPower m e (low + 2) then low + 2
  else if atLeastTenPower m e (low + 1) then low + 1
  else low

/-- The number of the form `d · 10 ^ k` nearest to `m · 2 ^ e`, if it lies between the two
midpoints that separate `m · 2 ^ e` from its neighbours. The midpoints themselves count when the
mantissa is even, and a tie between two candidates goes to the even digit. -/
def onGrid? (m : Nat) (e k : Int) : Option Nat :=
  let unit := ratio 1 (e - 2)
  let grid := tenPower k
  let a := grid.1 * unit.2
  let b := unit.1 * grid.2
  let value := 4 * m * b
  let low := (if 2 * m = mantissaBound && minExponent < e then 4 * m - 1 else 4 * m - 2) * b
  let high := (4 * m + 2) * b
  let fits (d : Nat) : Bool :=
    if m % 2 = 0 then low ≤ d * a && d * a ≤ high else low < d * a && d * a < high
  let below := value / a
  let above := below + 1
  match fits below, fits above with
  | true, true =>
    let down := value - below * a
    let up := above * a - value
    some (if down < up then below else if up < down then above else below + below % 2)
  | true, false => some below
  | false, true => some above
  | false, false => none

/-- `d · 10 ^ k` without the zeros that `d` ends in; `fuel` bounds their number. -/
def dropZeros : Nat → Nat → Int → Nat × Int
  | 0, d, k => (d, k)
  | fuel + 1, d, k => if d % 10 = 0 then dropZeros fuel (d / 10) (k + 1) else (d, k)

/-- The shortest decimal `d · 10 ^ k` that reads back as `m · 2 ^ e`, for a mantissa above zero.
-/
def shortest (m : Nat) (e : Int) : Nat × Int :=
  let top := decimalExponent m e
  let found := (List.range 17).findSome? fun (n : Nat) =>
    let k := top - (n : Int)
    (onGrid? m e k).map fun d => (d, k)
  match found with
  | some (d, k) => dropZeros 18 d k
  | none => (0, 0)

/-- `d · 10 ^ k` written with a point where it has a fraction. -/
def pointText (d : Nat) (k : Int) : List Char :=
  let ds := Nat.toDigits 10 d
  if 0 ≤ k then ds ++ List.replicate k.toNat '0'
  else
    let after := (-k).toNat
    let whole := ds.length - after
    if whole = 0 then '0' :: '.' :: (List.replicate (after - ds.length) '0' ++ ds)
    else ds.take whole ++ '.' :: ds.drop whole

/-- `d · 10 ^ k` written with one digit before the point and a signed exponent. -/
def exponentText (d : Nat) (k : Int) : List Char :=
  let ds := Nat.toDigits 10 d
  let e : Int := k + ds.length - 1
  let mantissa := match ds with
    | [] => []
    | [c] => [c]
    | c :: cs => c :: '.' :: cs
  mantissa ++ 'e' :: (if e < 0 then '-' else '+') :: Nat.toDigits 10 e.natAbs

/-- The text of a finite magnitude: with a point from `10 ^ -5` up to, but not including,
`10 ^ 16`, with an exponent outside; at least one digit follows the point. -/
def magnitudeText (m : Nat) (e : Int) : List Char :=
  if m = 0 then ['0', '.', '0']
  else
    let (d, k) := shortest m e
    let top : Int := k + (Nat.toDigits 10 d).length - 1
    if -5 ≤ top && top < 16 then
      if 0 ≤ k then pointText d k ++ ['.', '0'] else pointText d k
    else exponentText d k

/-- The text of a double as a number of a JSON document. -/
def text : Double → String
  | nan => "NaN"
  | infinite s => if s then "-inf" else "inf"
  | finite s m e => String.ofList ((if s then ['-'] else []) ++ magnitudeText m e)

/-- The digits of a double without an exponent, and without a point where it is an integer. -/
def plainText : Double → String
  | nan => "NaN"
  | infinite s => if s then "-inf" else "inf"
  | finite s m e =>
    let body := if m = 0 then ['0'] else
      let (d, k) := shortest m e
      pointText d k
    String.ofList ((if s then ['-'] else []) ++ body)

end Double

end VenueLink

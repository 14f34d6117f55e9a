import VenueLink.Number.Shortest
import VenueLink.Text.Digits

/-!
# Decimal amounts

An amount of money is an integer number of units together with the number of its decimal places;
both are bounded, and trailing places are kept, so `1.50` and `1.5` are different amounts of the
same size. `Decimal.text` writes an amount with exactly its places, `Decimal.ofText?` reads one
back and rounds what does not fit.
-/

namespace VenueLink

/-- The units of an amount are below this number, the 96th power of two. -/
def Decimal.unitBound : Nat := 79228162514264337593543950336

/-- `units / 10 ^ places`, written with `places` digits after the point. -/
structure Decimal where
  units : Int
  places : Nat
  units_lt : units.natAbs < Decimal.unitBound
  places_le : places ≤ 28
deriving DecidableEq

namespace Decimal

/-- The amount of `units / 10 ^ places`, if both are within bounds. -/
def make? (units : Int) (places : Nat) : Option Decimal :=
  if h : units.natAbs < unitBound ∧ places ≤ 28 then some ⟨units, places, h.1, h.2⟩ else none

/-- Zero, without places. -/
def zero : Decimal :=
  ⟨0, 0, by decide, by decide⟩

instance : Inhabited Decimal := ⟨zero⟩

/-- Above zero. -/
def isPositive (d : Decimal) : Bool :=
  0 < d.units

/-- The digits of the amount, as many after the point as it has places. -/
def text (d : Decimal) : String :=
  let ds := Text.padded (d.places + 1) d.units.natAbs
  let whole := ds.length - d.places
  let sign := if d.units < 0 then ['-'] else []
  let fraction := if d.places = 0 then [] else '.' :: ds.drop whole
  String.ofList (sign ++ ds.take whole ++ fraction)

/-- `magnitude` with its sign. -/
def signed (negative : Bool) (magnitude : Nat) : Int :=
  if negative then -(magnitude : Int) else magnitude

/-- Close a number whose next digit no longer fits. A digit of five or more rounds the magnitude
up; if that overflows, one place is given up. A blank digit or a second point rounds down, and
anything else is not a number. -/
def closeRounded (negative : Bool) (magnitude places : Nat) (next : Char) : Option Decimal :=
  if next = '_' || next = '.' then make? (signed negative magnitude) places
  else if !next.isDigit then none
  else if next.toNat - 48 < 5 then make? (signed negative magnitude) places
  else if magnitude + 1 < unitBound then make? (signed negative (magnitude + 1)) places
  else if places = 0 then none
  else make? (signed negative ((magnitude + 5) / 10)) (places - 1)

/-- Read digits with at most one point among them; `_` may stand anywhere after the first digit.
`pointed` and `started` tell whether a point and a digit have been met. Reading ends early at a
digit that does not fit. -/
def readDigits (negative pointed started : Bool) (magnitude places : Nat) :
    List Char → Option Decimal
  | [] => if started then make? (signed negative magnitude) places else none
  | c :: cs =>
    if c.isDigit then
      let next := magnitude * 10 + (c.toNat - 48)
      if unitBound ≤ next then
        if pointed then closeRounded negative magnitude places c else none
      else
        let places := if pointed then places + 1 else places
        match cs with
        | [] => make? (signed negative next) places
        | d :: _ =>
          if pointed && 28 ≤ places then closeRounded negative next places d
          else readDigits negative pointed true next places cs
    else if c = '.' && !pointed then readDigits negative true started magnitude places cs
    else if c = '_' && started then readDigits negative pointed started magnitude places cs
    else none

/-- A number without an exponent, with an optional sign in front. -/
def ofPlain? : List Char → Option Decimal
  | '-' :: cs => readDigits true false false 0 0 cs
  | '+' :: cs => readDigits false false false 0 0 cs
  | cs => readDigits false false false 0 0 cs

/-- `base · 10 ^ n`: places are used up first, and only then does the magnitude grow. -/
def shiftUp? (base : Decimal) (n : Nat) : Option Decimal :=
  if n ≤ base.places then make? base.units (base.places - n)
  else if 28 < n then none
  else make? (base.units * (Nat.pow 10 (n - base.places) : Nat)) 0

/-- `base · 10 ^ (-n)`. -/
def shiftDown? (base : Decimal) (n : Nat) : Option Decimal :=
  make? base.units (base.places + n)

/-- An exponent without its minus sign; a plus sign may stand in front. -/
def readShift? : List Char → Option Nat
  | '+' :: cs => (Text.readNat? cs).filter (· < 4294967296)
  | cs => (Text.readNat? cs).filter (· < 4294967296)

/-- A number with an exponent after `e` or `E`. -/
def ofScientific? (cs : List Char) : Option Decimal :=
  let isMark (c : Char) : Bool := c = 'e' || c = 'E'
  match cs.dropWhile (!isMark ·) with
  | [] => none
  | _ :: shift => do
    let base ← ofPlain? (cs.takeWhile (!isMark ·))
    match shift with
    | '-' :: ds => (readShift? ds).bind base.shiftDown?
    | ds => (readShift? ds).bind base.shiftUp?

/-- The amount that a text writes, without or else with an exponent. -/
def ofText? (s : String) : Option Decimal :=
  (ofPlain? s.toList).orElse fun _ => ofScientific? s.toList

/-- An integer amount without places. -/
def ofInt? (i : Int) : Option Decimal :=
  make? i 0

/-- The amount of the digits of a double. -/
def ofDouble? (d : Double) : Option Decimal :=
  ofPlain? d.plainText.toList

end Decimal

end VenueLink

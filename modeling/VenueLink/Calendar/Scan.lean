import VenueLink.Text.Blank
import VenueLink.Text.Digits

/-!
# Scanning dates and times

Small steps over a list of characters, each giving what it found and the rest, or nothing.
-/

namespace VenueLink.Calendar

/-- The text after the character `c`, if it begins with it. -/
def literal? (c : Char) : List Char → Option (List Char)
  | d :: cs => if d = c then some cs else none
  | [] => none

/-- A number of one to `limit` digits, with blanks in front. -/
def number? (limit : Nat) (cs : List Char) : Option (Nat × List Char) :=
  let (ds, rest) := Text.spanDigits limit (Text.skipBlank cs)
  if ds.isEmpty then none else some (Text.digitsValue ds, rest)

/-- A year, with blanks in front: up to four digits, or a sign and any number of digits. -/
def year? (cs : List Char) : Option (Int × List Char) :=
  match Text.skipBlank cs with
  | '-' :: r =>
    let ds := r.takeWhile Char.isDigit
    if ds.isEmpty then none else some (-(Text.digitsValue ds : Int), r.dropWhile Char.isDigit)
  | '+' :: r =>
    let ds := r.takeWhile Char.isDigit
    if ds.isEmpty then none else some ((Text.digitsValue ds : Int), r.dropWhile Char.isDigit)
  | r => (number? 4 r).map fun (n, rest) => ((n : Int), rest)

end VenueLink.Calendar

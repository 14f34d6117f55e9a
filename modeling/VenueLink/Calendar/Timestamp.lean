import VenueLink.Calendar.Date

/-!
# Timestamps

An instant in universal time: a date, a second of the day and nanoseconds. A leap second is the
last second of its minute with a nanosecond count of a thousand million or more.
`Timestamp.text` writes an instant with the fewest of 0, 3, 6 or 9 fraction digits that are
exact; `Timestamp.ofText?` reads one with any offset.
-/

namespace VenueLink

/-- An instant in universal time. -/
structure Timestamp where
  date : Date
  second : Nat
  nanos : Nat
deriving DecidableEq

namespace Timestamp

open Calendar

instance : Inhabited Timestamp := ⟨⟨default, 0, 0⟩⟩

/-- The order of instants in time. -/
def order (a b : Timestamp) : Ordering :=
  (a.date.order b.date).then ((compare a.second b.second).then (compare a.nanos b.nanos))

/-- The fraction of a second with the fewest digits that are exact. -/
def fractionText (nanos : Nat) : List Char :=
  if nanos = 0 then []
  else if nanos % 1000000 = 0 then '.' :: Text.padded 3 (nanos / 1000000)
  else if nanos % 1000 = 0 then '.' :: Text.padded 6 (nanos / 1000)
  else '.' :: Text.padded 9 nanos

/-- The instant in universal time, marked `Z`. -/
def text (t : Timestamp) : String :=
  let hour := t.second / 3600
  let minute := t.second / 60 % 60
  let (second, nanos) :=
    if t.nanos < 1000000000 then (t.second % 60, t.nanos)
    else (t.second % 60 + 1, t.nanos - 1000000000)
  String.ofList (t.date.chars ++ 'T' :: Text.padded 2 hour ++ ':' :: Text.padded 2 minute ++
    ':' :: Text.padded 2 second ++ fractionText nanos ++ ['Z'])

/-- A number of one or two digits not above `limit`, with blanks in front. -/
def part? (limit : Nat) (cs : List Char) : Option (Nat × List Char) :=
  (number? 2 cs).filter fun (n, _) => n ≤ limit

/-- A fraction of a second, in nanoseconds; digits after the ninth are passed over. -/
def fraction? : List Char → Option (Nat × List Char)
  | '.' :: cs =>
    let ds := cs.takeWhile Char.isDigit
    let kept := ds.take 9
    if ds.isEmpty then none
    else some (Text.digitsValue kept * Nat.pow 10 (9 - kept.length), cs.dropWhile Char.isDigit)
  | cs => some (0, cs)

/-- Hours and minutes of an offset after its sign, in seconds: two digits each, with colons or
blanks between them. -/
def offsetSize? : List Char → Option (Nat × List Char)
  | a :: b :: cs =>
    if a.isDigit && b.isDigit then
      match cs.dropWhile (fun c => c = ':' || Text.isBlank c) with
      | c :: d :: rest =>
        if c.isDigit && d.isDigit && c.toNat < 54 then
          some (Text.digitsValue [a, b] * 3600 + Text.digitsValue [c, d] * 60, rest)
        else none
      | _ => none
    else none
  | _ => none

/-- An offset from universal time, in seconds. -/
def offset? : List Char → Option (Int × List Char)
  | 'Z' :: cs => some (0, cs)
  | 'z' :: cs => some (0, cs)
  | '+' :: cs => (offsetSize? cs).map fun (n, rest) => ((n : Int), rest)
  | '-' :: cs => (offsetSize? cs).map fun (n, rest) => (-(n : Int), rest)
  | '\u2212' :: cs => (offsetSize? cs).map fun (n, rest) => (-(n : Int), rest)
  | u :: t :: c :: cs =>
    if u.toLower = 'u' && t.toLower = 't' && c.toLower = 'c' then some (0, cs) else none
  | _ => none

/-- The instant at a local time, given the offset of that time. -/
def atOffset? (date : Date) (second nanos : Nat) (offset : Int) : Option Timestamp := do
  if 86400 ≤ offset.natAbs then none
  else
    let total := date.toDays * 86400 + second - offset
    let day ← Date.ofDays? (total / 86400)
    some ⟨day, (total % 86400).toNat, nanos⟩

/-- A date, a time of day and an offset. -/
def ofText? (s : String) : Option Timestamp := do
  let (date, cs) ← Date.scan? Text.skipBlank s.toList
  let cs ← match cs with
    | c :: r => if c = 'T' || c = 't' || Text.isBlank c then some r else none
    | [] => none
  let (hour, cs) ← part? 23 cs
  let cs ← literal? ':' (Text.skipBlank cs)
  let (minute, cs) ← part? 59 cs
  let cs ← literal? ':' (Text.skipBlank cs)
  let (second, cs) ← part? 60 cs
  let (nanos, cs) ← fraction? cs
  let (offset, cs) ← offset? (Text.skipBlank cs)
  if !cs.all Text.isBlank then none
  else if second = 60 then
    atOffset? date (hour * 3600 + minute * 60 + 59) (nanos + 1000000000) offset
  else atOffset? date (hour * 3600 + minute * 60 + second) nanos offset

/-- The instant a number of nanoseconds after the epoch, if its year is in range. -/
def ofNanos? (n : Int) : Option Timestamp := do
  let seconds := n / 1000000000
  let day ← Date.ofDays? (seconds / 86400)
  some ⟨day, (seconds % 86400).toNat, (n % 1000000000).toNat⟩

/-- The seconds after the epoch that an instant can stand for. -/
def isUnixSecond (n : Int) : Bool :=
  (Date.ofDays? (n / 86400)).isSome

end Timestamp

end VenueLink

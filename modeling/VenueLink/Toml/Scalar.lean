import VenueLink.Calendar.Date
import VenueLink.Number.Literal
import VenueLink.Text.Split
import VenueLink.Toml.Text

/-!
# Numbers and moments of TOML
-/

namespace VenueLink.Toml

/-- The longest run of digits with single underscores between them, and the rest. -/
def digitRun (isDigit : Char → Bool) : List Char → List Char × List Char
  | '_' :: c :: cs =>
    if isDigit c then
      let (ds, rest) := digitRun isDigit cs
      (c :: ds, rest)
    else ([], '_' :: c :: cs)
  | c :: cs =>
    if isDigit c then
      let (ds, rest) := digitRun isDigit cs
      (c :: ds, rest)
    else ([], c :: cs)
  | [] => ([], [])

/-- A run of at least one digit, without its underscores. -/
def digits? (isDigit : Char → Bool) (cs : List Char) : Option (List Char × List Char) :=
  match cs with
  | c :: _ =>
    if isDigit c then some (digitRun isDigit cs) else none
  | [] => none

/-- A number. -/
inductive Number where
  | integer (i : Int)
  | double (d : Double)

/-- An integer, if it has 64 bits. -/
def integer64? (i : Int) : Option Number :=
  if Text.minInt64 ≤ i && i ≤ Text.maxInt64 then some (.integer i) else none

/-- A double, if the number is not too large. -/
def double? (text : List Char) : Option Number :=
  match Double.ofText? (String.ofList text) with
  | some (.infinite false) | none => none
  | some d => some (.double d)

/-- An integer in another base, after its mark. -/
def based? (base : Nat) (cs : List Char) : Option (Number × List Char) := do
  let isDigit (c : Char) : Bool := (Text.hexValue? c).any (· < base)
  let (ds, rest) ← digits? isDigit cs
  let values ← ds.mapM Text.hexValue?
  let number ← integer64? (values.foldl (fun n d => n * base + d) 0 : Nat)
  some (number, rest)

/-- The exponent of a number, if one begins here. -/
def exponent? : List Char → Option (List Char × List Char)
  | c :: cs =>
    if c = 'e' || c = 'E' then
      let (sign, cs) := match cs with
        | '+' :: cs => ([], cs)
        | '-' :: cs => (['-'], cs)
        | cs => ([], cs)
      (digits? Char.isDigit cs).map fun (ds, rest) => ('e' :: sign ++ ds, rest)
    else none
  | [] => none

/-- The whole part of a decimal number: no zero in front of other digits. -/
def whole? : List Char → Option (List Char × List Char)
  | '0' :: cs => some (['0'], cs)
  | cs => digits? Char.isDigit cs

/-- A decimal number after its sign. -/
def decimal? (sign : List Char) (cs : List Char) : Option (Number × List Char) := do
  let (whole, cs) ← whole? cs
  let fraction := match cs with
    | '.' :: r => digits? Char.isDigit r
    | _ => none
  match fraction with
  | some (ds, cs) =>
    match exponent? cs with
    | some (e, cs) => (double? (sign ++ whole ++ '.' :: ds ++ e)).map (·, cs)
    | none => (double? (sign ++ whole ++ '.' :: ds)).map (·, cs)
  | none =>
    match exponent? cs with
    | some (e, cs) => (double? (sign ++ whole ++ e)).map (·, cs)
    | none => do
      let i ← Text.readInt? (sign ++ whole)
      (integer64? i).map (·, cs)

/-- A number after its sign. -/
def signed? (negative : Bool) : List Char → Option (Number × List Char)
  | 'i' :: 'n' :: 'f' :: cs => some (.double (.infinite negative), cs)
  | 'n' :: 'a' :: 'n' :: cs => some (.double .nan, cs)
  | cs => decimal? (if negative then ['-'] else []) cs

/-- A number. -/
def number? : List Char → Option (Number × List Char)
  | '+' :: cs => signed? false cs
  | '-' :: cs => signed? true cs
  | '0' :: 'x' :: cs => based? 16 cs
  | '0' :: 'o' :: cs => based? 8 cs
  | '0' :: 'b' :: cs => based? 2 cs
  | cs => signed? false cs

/-! ### Moments -/

/-- Exactly `width` digits. -/
def fixed? (width : Nat) (cs : List Char) : Option (Nat × List Char) :=
  let ds := cs.take width
  if ds.length = width && ds.all Char.isDigit then some (Text.digitsValue ds, cs.drop width)
  else none

/-- A calendar date. -/
def date? (cs : List Char) : Option (List Char) := do
  let (year, cs) ← fixed? 4 cs
  let cs ← Calendar.literal? '-' cs
  let (month, cs) ← fixed? 2 cs
  let cs ← Calendar.literal? '-' cs
  let (day, cs) ← fixed? 2 cs
  if 1 ≤ day && day ≤ Calendar.monthLength year month then some cs else none

/-- Hours and minutes. -/
def hourMinute? (cs : List Char) : Option (List Char) := do
  let (hour, cs) ← fixed? 2 cs
  let cs ← Calendar.literal? ':' cs
  let (minute, cs) ← fixed? 2 cs
  if hour ≤ 23 && minute ≤ 59 then some cs else none

/-- A time of day. -/
def time? (cs : List Char) : Option (List Char) := do
  let cs ← hourMinute? cs
  let cs ← Calendar.literal? ':' cs
  let (second, cs) ← fixed? 2 cs
  if 60 < second then none
  else match cs with
    | '.' :: c :: r => if c.isDigit then some (r.dropWhile Char.isDigit) else some cs
    | _ => some cs

/-- The rest after an offset from universal time, if one begins here. -/
def skipOffset (cs : List Char) : Option (List Char) :=
  match cs with
  | 'Z' :: r | 'z' :: r => some r
  | '+' :: r | '-' :: r => hourMinute? r
  | _ => some cs

/-- The rest after a moment: a date, a time, or both, and then perhaps an offset. -/
def momentRest? (cs : List Char) : Option (List Char) :=
  match date? cs with
  | none => time? cs
  | some rest =>
    match rest with
    | mark :: r =>
      if mark = 'T' || mark = 't' || mark = ' ' then
        match time? r with
        | some r => skipOffset r
        | none => some rest
      else some rest
    | [] => some rest

/-- A moment as it is written. -/
def moment? (cs : List Char) : Option (List Char × List Char) :=
  (momentRest? cs).map fun rest => (cs.take (cs.length - rest.length), rest)

end VenueLink.Toml

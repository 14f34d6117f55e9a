import VenueLink.Json.Basic
import VenueLink.Number.Shortest

/-!
# JSON text

`Json.compact` writes a value without any blank, `Json.pretty` on several lines with two blanks
per level. A double that is not finite is written `null`.
-/

namespace VenueLink

namespace Json

/-- The hexadecimal digit of a number below sixteen, in small letters. -/
def hexDigit (n : Nat) : Char :=
  Nat.digitChar (n % 16)

/-- How a character is written inside a quoted string. -/
def escapedChar (c : Char) : List Char :=
  if c = '"' then ['\\', '"']
  else if c = '\\' then ['\\', '\\']
  else if c = '\n' then ['\\', 'n']
  else if c = '\r' then ['\\', 'r']
  else if c = '\t' then ['\\', 't']
  else if c.toNat = 8 then ['\\', 'b']
  else if c.toNat = 12 then ['\\', 'f']
  else if c.toNat < 32 then ['\\', 'u', '0', '0', hexDigit (c.toNat / 16), hexDigit c.toNat]
  else [c]

/-- A string in quotes. -/
def quoted (s : String) : String :=
  String.ofList ('"' :: (s.toList.flatMap escapedChar ++ ['"']))

/-- A double as a number, or `null` if it is not finite. -/
def doubleText (d : Double) : String :=
  if d.isFinite then d.text else "null"

mutual

/-- The text of a value without blanks. -/
def compact : Json → String
  | null => "null"
  | bool b => if b then "true" else "false"
  | integer i => toString i
  | double d => doubleText d
  | string s => quoted s
  | array items => "[" ++ compactItems items ++ "]"
  | object fields => "\x7b" ++ compactFields fields ++ "\x7d"

/-- The items of an array with commas between them. -/
def compactItems : List Json → String
  | [] => ""
  | [x] => compact x
  | x :: y :: rest => compact x ++ "," ++ compactItems (y :: rest)

/-- The fields of an object with commas between them. -/
def compactFields : List (String × Json) → String
  | [] => ""
  | [(k, x)] => quoted k ++ ":" ++ compact x
  | (k, x) :: y :: rest => quoted k ++ ":" ++ compact x ++ "," ++ compactFields (y :: rest)

end

/-- A new line with two blanks per level. -/
def newLine (level : Nat) : String :=
  String.ofList ('\n' :: List.replicate (2 * level) ' ')

mutual

/-- The text of a value on several lines, `level` levels deep. -/
def prettyAt (level : Nat) : Json → String
  | array [] => "[]"
  | array (x :: xs) =>
    "[" ++ newLine (level + 1) ++ prettyAt (level + 1) x ++ prettyItems (level + 1) xs ++
      newLine level ++ "]"
  | object [] => "\x7b\x7d"
  | object ((k, x) :: xs) =>
    "\x7b" ++ newLine (level + 1) ++ quoted k ++ ": " ++ prettyAt (level + 1) x ++
      prettyFields (level + 1) xs ++ newLine level ++ "\x7d"
  | null => "null"
  | bool b => if b then "true" else "false"
  | integer i => toString i
  | double d => doubleText d
  | string s => quoted s

/-- The remaining items, each on a line of its own. -/
def prettyItems (level : Nat) : List Json → String
  | [] => ""
  | x :: xs => "," ++ newLine level ++ prettyAt level x ++ prettyItems level xs

/-- The remaining fields, each on a line of its own. -/
def prettyFields (level : Nat) : List (String × Json) → String
  | [] => ""
  | (k, x) :: xs =>
    "," ++ newLine level ++ quoted k ++ ": " ++ prettyAt level x ++ prettyFields level xs

end

/-- The text of a value on several lines. -/
def pretty (j : Json) : String :=
  prettyAt 0 j

end Json

end VenueLink

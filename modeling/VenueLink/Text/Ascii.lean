/-!
# ASCII letters

Case folding that touches the letters `A`–`Z` and `a`–`z` only; every other character, in
particular every character outside ASCII, stays as it is.
-/

namespace VenueLink.Text

/-- A letter `A`–`Z` or `a`–`z`. -/
def isAsciiLetter (c : Char) : Bool :=
  c.isAlpha

/-- `s` with the letters `A`–`Z` made small. -/
def lowerAscii (s : String) : String :=
  String.ofList (s.toList.map Char.toLower)

/-- `s` with the letters `a`–`z` made capital. -/
def upperAscii (s : String) : String :=
  String.ofList (s.toList.map Char.toUpper)

/-- The texts agree up to the case of ASCII letters. -/
def sameIgnoringCase (s t : String) : Bool :=
  lowerAscii s == lowerAscii t

/-- `needle` stands somewhere in `cs`. -/
def occursIn (needle : List Char) : List Char → Bool
  | [] => needle.isEmpty
  | c :: cs => needle.isPrefixOf (c :: cs) || occursIn needle cs

end VenueLink.Text

/-!
# Blank characters and trimming

`isBlank` is the Unicode property White_Space: twenty-five characters, of which six lie in the
ASCII range. `trim` removes blank characters at both ends of a text and nothing else.
-/

namespace VenueLink.Text

/-- The characters with the Unicode property White_Space. -/
def isBlank (c : Char) : Bool :=
  let n := c.toNat
  (0x09 ≤ n && n ≤ 0x0D) || n == 0x20 || n == 0x85 || n == 0xA0 || n == 0x1680 ||
    (0x2000 ≤ n && n ≤ 0x200A) || n == 0x2028 || n == 0x2029 || n == 0x202F || n == 0x205F ||
    n == 0x3000

/-- `cs` without the blank characters it begins with. -/
def skipBlank (cs : List Char) : List Char :=
  cs.dropWhile isBlank

/-- `cs` without the blank characters it begins or ends with. -/
def trimChars (cs : List Char) : List Char :=
  (skipBlank (skipBlank cs).reverse).reverse

/-- `s` without the blank characters it begins or ends with. -/
def trim (s : String) : String :=
  String.ofList (trimChars s.toList)

end VenueLink.Text

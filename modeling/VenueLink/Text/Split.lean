/-!
# Splitting a text
-/

namespace VenueLink.Text

/-- The parts of a text between the separators; a text without separators is one part. -/
def splitOn (separator : Char) : List Char → List (List Char)
  | [] => [[]]
  | c :: cs =>
    if c = separator then [] :: splitOn separator cs
    else match splitOn separator cs with
      | [] => [[c]]
      | part :: parts => (c :: part) :: parts

end VenueLink.Text

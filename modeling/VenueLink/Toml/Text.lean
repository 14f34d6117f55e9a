import VenueLink.Text.Digits

/-!
# Blanks, strings and keys of TOML

Scanners take something off the front of a text; they return it with the rest of the text, or
nothing where the text does not begin with it.
-/

namespace VenueLink.Toml

/-- A blank within a line. -/
def isBlank (c : Char) : Bool :=
  c = ' ' || c = '\t'

/-- A character that may stand in a comment. -/
def isPrintable (c : Char) : Bool :=
  c = '\t' || (32 ≤ c.toNat && c.toNat ≠ 127)

/-- The text without the blanks that it begins with. -/
def skipBlanks (cs : List Char) : List Char :=
  cs.dropWhile isBlank

/-- The rest after a line break. -/
def lineBreak? : List Char → Option (List Char)
  | '\n' :: cs => some cs
  | '\r' :: '\n' :: cs => some cs
  | _ => none

/-- The text without the comment that it begins with, if it does. -/
def skipComment : List Char → List Char
  | '#' :: cs => cs.dropWhile isPrintable
  | cs => cs

/-- The rest after blanks, perhaps a comment, and a line break or the end of the text. -/
def lineEnd? (cs : List Char) : Option (List Char) :=
  match skipComment (skipBlanks cs) with
  | [] => some []
  | cs => lineBreak? cs

/-- The rest after blanks, comments and line breaks; a comment must end with its line. -/
def skipLines : (inComment : Bool) → List Char → Option (List Char)
  | true, [] => none
  | false, [] => some []
  | true, '\n' :: cs => skipLines false cs
  | true, '\r' :: '\n' :: cs => skipLines false cs
  | true, c :: cs => if isPrintable c then skipLines true cs else none
  | false, '\n' :: cs => skipLines false cs
  | false, '\r' :: '\n' :: cs => skipLines false cs
  | false, '#' :: cs => skipLines true cs
  | false, c :: cs => if isBlank c then skipLines false cs else some (c :: cs)

/-! ### Strings -/

/-- The character of a code point in hexadecimal digits. -/
def codePoint? (digits : List Char) : Option Char := do
  let ds ← digits.mapM Text.hexValue?
  let n := ds.foldl (fun n d => n * 16 + d) 0
  if h : n.isValidChar then some (Char.ofNatAux n h) else none

/-- The character that an escape stands for, after its backslash. -/
def escape? : List Char → Option (Char × List Char)
  | 'b' :: cs => some ('\x08', cs)
  | 't' :: cs => some ('\t', cs)
  | 'n' :: cs => some ('\n', cs)
  | 'f' :: cs => some ('\x0c', cs)
  | 'r' :: cs => some ('\r', cs)
  | '"' :: cs => some ('"', cs)
  | '\\' :: cs => some ('\\', cs)
  | 'u' :: cs => if cs.length < 4 then none else (codePoint? (cs.take 4)).map (·, cs.drop 4)
  | 'U' :: cs => if cs.length < 8 then none else (codePoint? (cs.take 8)).map (·, cs.drop 8)
  | _ => none

/-- Put a character in front of what was scanned. -/
def push (c : Char) (r : Option (List Char × List Char)) : Option (List Char × List Char) :=
  r.map fun (s, rest) => (c :: s, rest)

/-- The rest of a string of one line, after its quote. -/
def basicRest : (fuel : Nat) → List Char → Option (List Char × List Char)
  | 0, _ => none
  | _ + 1, [] => none
  | _ + 1, '"' :: cs => some ([], cs)
  | fuel + 1, '\\' :: cs => do
    let (c, cs) ← escape? cs
    push c (basicRest fuel cs)
  | fuel + 1, c :: cs => if isPrintable c then push c (basicRest fuel cs) else none

/-- The rest of a literal string of one line, after its quote. -/
def literalRest : List Char → Option (List Char × List Char)
  | [] => none
  | '\'' :: cs => some ([], cs)
  | c :: cs => if isPrintable c then push c (literalRest cs) else none

/-- What follows at a run of quotes in a string of several lines: the quotes that belong to the
string, and whether it ends there. -/
def quotesAt (quote : Char) (cs : List Char) : List Char × Bool :=
  let run := cs.takeWhile (· = quote)
  if run.length < 3 then (run, false) else (run.take (min 2 (run.length - 3)), true)

/-- The rest after a backslash at the end of a line: all blanks and line breaks that follow. -/
def joinLines? (cs : List Char) : Option (List Char) := do
  let cs ← lineBreak? (skipBlanks cs)
  some (cs.dropWhile fun c => isBlank c || c = '\n' || c = '\r')

/-- The rest of a string of several lines, after its quotes. -/
def longRest (literal : Bool) : (fuel : Nat) → List Char → Option (List Char × List Char)
  | 0, _ => none
  | _ + 1, [] => none
  | fuel + 1, c :: cs =>
    let quote := if literal then '\'' else '"'
    if c = quote then
      match quotesAt quote (c :: cs) with
      | (own, true) => some (own, (c :: cs).drop (own.length + 3))
      | (own, false) =>
        (longRest literal fuel ((c :: cs).drop own.length)).map
          fun (s, rest) => (own ++ s, rest)
    else if c = '\\' && !literal then
      match joinLines? cs with
      | some cs => longRest literal fuel cs
      | none => do
        let (c, cs) ← escape? cs
        push c (longRest literal fuel cs)
    else
      match lineBreak? (c :: cs) with
      | some cs => push '\n' (longRest literal fuel cs)
      | none => if isPrintable c then push c (longRest literal fuel cs) else none

/-- The text without the line break that it begins with, if it does. -/
def skipLineBreak (cs : List Char) : List Char :=
  (lineBreak? cs).getD cs

/-- A string of one line. -/
def shortString? : List Char → Option (List Char × List Char)
  | '"' :: cs => basicRest (cs.length + 1) cs
  | '\'' :: cs => literalRest cs
  | _ => none

/-- A string of any of the four kinds. -/
def string? : List Char → Option (List Char × List Char)
  | '"' :: '"' :: '"' :: cs => longRest false (cs.length + 1) (skipLineBreak cs)
  | '\'' :: '\'' :: '\'' :: cs => longRest true (cs.length + 1) (skipLineBreak cs)
  | cs => shortString? cs

/-! ### Keys -/

/-- A character of a bare key. -/
def isKeyChar (c : Char) : Bool :=
  c.isAlphanum || c = '_' || c = '-'

/-- One part of a key: bare or quoted. -/
def keyPart? (cs : List Char) : Option (String × List Char) :=
  match cs.takeWhile isKeyChar with
  | [] => (shortString? cs).map fun (s, rest) => (String.ofList s, rest)
  | word => some (String.ofList word, cs.dropWhile isKeyChar)

/-- The parts of a key, with points between them and blanks around them. -/
def keyParts : (fuel : Nat) → List Char → Option (List String × List Char)
  | 0, _ => none
  | fuel + 1, cs => do
    let (part, cs) ← keyPart? (skipBlanks cs)
    match skipBlanks cs with
    | '.' :: cs =>
      let (parts, cs) ← keyParts fuel cs
      some (part :: parts, cs)
    | cs => some ([part], cs)

/-- How many parts a key may have at most. -/
def maxKeyParts : Nat := 79

/-- A key. -/
def key? (cs : List Char) : Option (List String × List Char) :=
  keyParts maxKeyParts cs

end VenueLink.Toml

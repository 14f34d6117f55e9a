import VenueLink.Document.Basic
import VenueLink.Number.Literal

/-!
# Documents in JSON text

`Document.scan` goes through a text once and returns the document that begins it together with
the rest of the text. It never fails: what is not JSON becomes a flawed part. A container inside
`maxDepth` others is flawed for its readers, whatever it holds, but can be skipped.
-/

namespace VenueLink

namespace Document

/-- How many containers a value may lie inside. -/
def maxDepth : Nat := 127

/-- The blank characters between the tokens of a JSON text. -/
def isSpace (c : Char) : Bool :=
  c = ' ' || c = '\t' || c = '\n' || c = '\r'

/-- The text without the blanks it begins with. -/
def skipSpace (cs : List Char) : List Char :=
  cs.dropWhile isSpace

/-! ### Quoted strings -/

/-- What stands for one character of a quoted string: the character, or a code unit of UTF-16.
-/
inductive Piece where
  | char (c : Char)
  | unit (n : Nat)
deriving DecidableEq

/-- A quoted string up to its closing quote, or up to the fault that keeps it from one. -/
structure Quoted where
  pieces : List Piece
  broken : Option Fault
  rest : List Char

namespace Quoted

/-- A string that ends here with a fault. -/
def fail (f : Fault) : Quoted :=
  ⟨[], some f, []⟩

/-- The string with one more piece in front. -/
def push (p : Piece) (q : Quoted) : Quoted :=
  { q with pieces := p :: q.pieces }

end Quoted

/-- The code unit of four hexadecimal digits. -/
def hexUnit? (a b c d : Char) : Option Nat := do
  let a ← Text.hexValue? a
  let b ← Text.hexValue? b
  let c ← Text.hexValue? c
  let d ← Text.hexValue? d
  some (((a * 16 + b) * 16 + c) * 16 + d)

/-- The character that a backslash and one letter stand for. -/
def escaped? : Char → Option Char
  | '"' => some '"'
  | '\\' => some '\\'
  | '/' => some '/'
  | 'b' => some (Char.ofNat 8)
  | 'f' => some (Char.ofNat 12)
  | 'n' => some '\n'
  | 'r' => some '\r'
  | 't' => some '\t'
  | _ => none

/-- The number of bytes of a text in UTF-8. -/
def byteCount (cs : List Char) : Nat :=
  cs.foldl (fun n c => n + c.utf8Size) 0

/-- The quoted string that begins after its opening quote. -/
def scanQuoted : List Char → Quoted
  | [] => .fail .truncated
  | '"' :: cs => ⟨[], none, cs⟩
  | '\\' :: 'u' :: a :: b :: c :: d :: cs =>
    match hexUnit? a b c d with
    | some n => (scanQuoted cs).push (.unit n)
    | none => .fail .malformed
  | '\\' :: 'u' :: cs => .fail (if byteCount cs < 4 then .truncated else .malformed)
  | ['\\'] => .fail .truncated
  | '\\' :: c :: cs =>
    match escaped? c with
    | some e => (scanQuoted cs).push (.char e)
    | none => .fail .malformed
  | c :: cs => if c.toNat < 32 then .fail .malformed else (scanQuoted cs).push (.char c)

/-- The first unit of a surrogate pair. -/
def isHigh (n : Nat) : Bool :=
  0xD800 ≤ n && n ≤ 0xDBFF

/-- The second unit of a surrogate pair. -/
def isLow (n : Nat) : Bool :=
  0xDC00 ≤ n && n ≤ 0xDFFF

/-- The characters of the pieces, if every surrogate has its partner. -/
def assemble : List Piece → Option (List Char)
  | [] => some []
  | .char c :: ps => (assemble ps).map (c :: ·)
  | .unit n :: .unit m :: ps =>
    if isHigh n then
      if isLow m then
        (assemble ps).map (Char.ofNat ((n - 0xD800) * 0x400 + (m - 0xDC00) + 0x10000) :: ·)
      else none
    else if isLow n then none
    else (assemble (.unit m :: ps)).map (Char.ofNat n :: ·)
  | .unit n :: ps => if isHigh n || isLow n then none else (assemble ps).map (Char.ofNat n :: ·)

/-- The pieces without a first unit of a pair that stands last. -/
def dropOpenEnd (ps : List Piece) : List Piece :=
  match ps.getLast? with
  | some (.unit n) => if isHigh n then ps.dropLast else ps
  | _ => ps

/-- A quoted string as a key. -/
def Quoted.key (q : Quoted) : Key :=
  match q.broken with
  | none => match assemble q.pieces with
    | some cs => .named (String.ofList cs)
    | none => .flawed .malformed .malformed
  | some f => match assemble (dropOpenEnd q.pieces) with
    | some _ => .flawed f f
    | none => .flawed .malformed .malformed

/-- A quoted string as a value. -/
def Quoted.document (q : Quoted) : Document :=
  match q.key with
  | .named s => .string s
  | .flawed f _ => .flawed f f q.broken

/-! ### Numbers -/

/-- The unsigned 64-bit integers are below this number. -/
def keptBound : Nat := 18446744073709551616

/-- A number while its digits are met: the digits kept so far and the power of ten that the
digits left out amount to. At most as many digits are kept as an unsigned 64-bit integer can
hold. -/
structure Digits where
  kept : Nat := 0
  power : Int := 0
  full : Bool := false

namespace Digits

/-- Take one more digit before the point. -/
def addWhole (s : Digits) (c : Char) : Digits :=
  let next := s.kept * 10 + (c.toNat - 48)
  if s.full || keptBound ≤ next then { s with power := s.power + 1, full := true }
  else { s with kept := next }

/-- Take one more digit after the point. -/
def addFraction (s : Digits) (c : Char) : Digits :=
  let next := s.kept * 10 + (c.toNat - 48)
  if s.full || keptBound ≤ next then { s with full := true }
  else { s with kept := next, power := s.power - 1 }

end Digits

/-- A number without point and exponent: an integer where 64 bits hold it, else a double. Minus
zero is a double. -/
def wholeNumber (negative : Bool) (s : Digits) : Document :=
  if s.full then
    match Double.ofLiteral negative s.kept s.power with
    | .infinite _ => .flawed .malformed .malformed none
    | d => .double d
  else if !negative then .integer s.kept
  else if s.kept = 0 || keptBound < 2 * s.kept then .double (Double.nearest true s.kept 1)
  else .integer (-(s.kept : Int))

/-- A number with a point or an exponent. One beyond the doubles cannot be read, only skipped.
-/
def doubleNumber (negative : Bool) (s : Digits) (exponent : Int) : Document :=
  match Double.ofLiteral negative s.kept (s.power + exponent) with
  | .infinite _ => .flawed .malformed .malformed none
  | d => .double d

/-- A number that stops where a digit is due: its reader runs out of text if nothing follows. -/
def digitDue (cs : List Char) : Document :=
  .flawed (if cs.isEmpty then .truncated else .malformed) .malformed (some .malformed)

/-- The exponent of a number, after its mark. -/
def scanExponent (negative : Bool) (s : Digits) (cs : List Char) : Document × List Char :=
  let (down, cs) := match cs with
    | '-' :: r => (true, r)
    | '+' :: r => (false, r)
    | r => (false, r)
  let ds := cs.takeWhile Char.isDigit
  let rest := cs.dropWhile Char.isDigit
  if ds.isEmpty then (digitDue rest, rest)
  else
    let e : Int := Text.digitsValue ds
    (doubleNumber negative s (if down then -e else e), rest)

/-- What follows the digits of a number: nothing, or an exponent. -/
def scanScale (negative : Bool) (s : Digits) : List Char → Document × List Char
  | 'e' :: cs => scanExponent negative s cs
  | 'E' :: cs => scanExponent negative s cs
  | cs => (doubleNumber negative s 0, cs)

/-- A number after its sign. -/
def scanUnsigned (negative : Bool) (cs : List Char) : Document × List Char :=
  let ds := cs.takeWhile Char.isDigit
  let rest := cs.dropWhile Char.isDigit
  if ds.isEmpty then (digitDue rest, rest)
  else if ds.length ≠ 1 && ds.head? = some '0' then
    (.flawed .malformed .malformed (some .malformed), rest)
  else
    let s := ds.foldl Digits.addWhole {}
    match rest with
    | '.' :: r =>
      let fs := r.takeWhile Char.isDigit
      let rest := r.dropWhile Char.isDigit
      if fs.isEmpty then (digitDue rest, rest)
      else scanScale negative (fs.foldl Digits.addFraction { s with full := false }) rest
    | 'e' :: r => scanExponent negative s r
    | 'E' :: r => scanExponent negative s r
    | r => (wholeNumber negative s, r)

/-! ### Values -/

/-- A word that is due, letter by letter. -/
def scanWord (value : Document) : (word cs : List Char) → Document × List Char
  | [], cs => (value, cs)
  | _ :: _, [] => (.flawed .truncated .malformed (some .truncated), [])
  | w :: ws, c :: cs =>
    if w = c then scanWord value ws cs
      else (.flawed .malformed .malformed (some .malformed), cs)

/-- A value that is no container. -/
def scanScalar : List Char → Document × List Char
  | [] => (.flawed .truncated .truncated (some .truncated), [])
  | '"' :: cs => let q := scanQuoted cs; (q.document, q.rest)
  | 'n' :: cs => scanWord .null ['u', 'l', 'l'] cs
  | 't' :: cs => scanWord (.bool true) ['r', 'u', 'e'] cs
  | 'f' :: cs => scanWord (.bool false) ['a', 'l', 's', 'e'] cs
  | '-' :: cs => scanUnsigned true cs
  | c :: cs =>
    if c.isDigit then scanUnsigned false (c :: cs)
    else (.flawed .malformed .malformed (some .malformed), c :: cs)

/-- The fault met where the name of an alternative is due and something else than a string
stands. -/
def choiceFault : List Char → Fault
  | '[' :: _ => .mismatch
  | '\x7b' :: _ => .mismatch
  | cs => (scanScalar cs).1.misfit

/-- A container at a depth: one too deep is flawed for its readers. -/
def atDepth (depth : Nat) (d : Document) : Document :=
  if depth < maxDepth then d else .flawed .malformed .malformed d.skipFault

mutual

/-- The value that begins the text, inside `depth` containers, and the rest. -/
def scanValue : (fuel depth : Nat) → List Char → Document × List Char
  | 0, _, cs => (.flawed .truncated .truncated (some .truncated), cs)
  | fuel + 1, depth, cs =>
    match skipSpace cs with
    | '[' :: r =>
      match skipSpace r with
      | ']' :: r => (atDepth depth (.array [] none), r)
      | [] => (atDepth depth (.array [] (some .truncated)), [])
      | r =>
        let (items, broken, rest) := scanItems fuel (depth + 1) r
        (atDepth depth (.array items broken), rest)
    | '\x7b' :: r =>
      match skipSpace r with
      | '\x7d' :: r => (atDepth depth (.object [] none), r)
      | [] => (atDepth depth (.object [] (some .truncated)), [])
      | r =>
        let (fields, broken, rest) := scanFields fuel (depth + 1) r
        (atDepth depth (.object fields broken), rest)
    | r => scanScalar r

/-- The items of an array from a place where one is due, to the end of the array. -/
def scanItems : (fuel depth : Nat) → List Char → List Document × Option Fault × List Char
  | 0, _, cs => ([], some .truncated, cs)
  | fuel + 1, depth, cs =>
    let (d, rest) := scanValue fuel depth cs
    match d.skipFault with
    | some f => ([d], some f, [])
    | none =>
      match skipSpace rest with
      | ',' :: r =>
        let (items, broken, rest) := scanItems fuel depth r
        (d :: items, broken, rest)
      | ']' :: r => ([d], none, r)
      | [] => ([d], some .truncated, [])
      | _ => ([d], some .malformed, [])

/-- The fields of an object from a place where one is due, to the end of the object. -/
def scanFields :
    (fuel depth : Nat) → List Char → List (Key × Document) × Option Fault × List Char
  | 0, _, cs => ([], some .truncated, cs)
  | fuel + 1, depth, cs =>
    match skipSpace cs with
    | '"' :: r =>
      let q := scanQuoted r
      match q.broken with
      | some f => ([(q.key, .flawed f f (some f))], some f, [])
      | none =>
        match skipSpace q.rest with
        | ':' :: r =>
          let (d, rest) := scanValue fuel depth r
          match d.skipFault with
          | some f => ([(q.key, d)], some f, [])
          | none =>
            match skipSpace rest with
            | ',' :: r =>
              let (fields, broken, rest) := scanFields fuel depth r
              ((q.key, d) :: fields, broken, rest)
            | '\x7d' :: r => ([(q.key, d)], none, r)
            | [] => ([(q.key, d)], some .truncated, [])
            | _ => ([(q.key, d)], some .malformed, [])
        | [] =>
            ([(q.key, .flawed .truncated .truncated (some .truncated))], some .truncated, [])
        | _ => ([(q.key, .flawed .malformed .malformed (some .malformed))], some .malformed, [])
    | [] => ([(.flawed .truncated .truncated, .flawed .truncated .truncated (some .truncated))],
        some .truncated, [])
    | r => ([(.flawed .malformed (choiceFault r),
        .flawed .malformed .malformed (some .malformed))], some .malformed, [])

end

/-- The document that begins the text, and the rest of the text. -/
def scan (cs : List Char) : Document × List Char :=
  scanValue (2 * cs.length + 2) 0 cs

end Document

end VenueLink

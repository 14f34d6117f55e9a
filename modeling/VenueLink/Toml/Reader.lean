import VenueLink.Toml.Scalar
import VenueLink.Toml.Tree

/-!
# Documents in TOML text

`Toml.read?` reads a whole text; any fault in it makes the text unreadable. A moment is read as
an object with its text under `momentKey`.
-/

namespace VenueLink.Toml

/-- The key under which a moment holds its text. -/
def momentKey : String := "$__toml_private_datetime"

/-- A moment as a document. -/
def momentDocument (text : List Char) : Document :=
  .object [(.named momentKey, .string (String.ofList text))] none

/-- A number as a document. -/
def Number.toDocument : Number → Document
  | integer i => .integer i
  | double d => .double d

/-- What one value is read by. -/
abbrev ValueScan := List Char → Option (Document × List Char)

/-- The items of an array after its bracket; a comma may follow the last one. -/
def itemsRest (value : ValueScan) :
    (fuel : Nat) → List Char → Option (List Document × List Char)
  | 0, _ => none
  | fuel + 1, cs => do
    match ← skipLines false cs with
    | ']' :: cs => some ([], cs)
    | cs =>
      let (item, cs) ← value cs
      match ← skipLines false cs with
      | ']' :: cs => some ([item], cs)
      | ',' :: cs =>
        let (rest, cs) ← itemsRest value fuel cs
        some (item :: rest, cs)
      | _ => none

/-- A key, `=` and a value. -/
def pair? (value : ValueScan) (cs : List Char) :
    Option ((List String × Document) × List Char) := do
  let (key, cs) ← key? cs
  let cs ← Calendar.literal? '=' cs
  let (d, cs) ← value (skipBlanks cs)
  some ((key, d), cs)

/-- The fields of an inline table after its first key was found to be due. -/
def pairsRest (value : ValueScan) :
    (fuel : Nat) → Entries → List Char → Option (Entries × List Char)
  | 0, _, _ => none
  | fuel + 1, fields, cs => do
    let ((parts, d), cs) ← pair? value cs
    let (path, key) ← Builder.splitKey? parts
    let fields ← insertAt? key (.value d) path fields
    match skipBlanks cs with
    | '\x7d' :: cs => some (fields, cs)
    | ',' :: cs => pairsRest value fuel fields cs
    | _ => none

/-- An inline table after its brace. -/
def inlineTable? (value : ValueScan) (cs : List Char) : Option (Document × List Char) :=
  match skipBlanks cs with
  | '\x7d' :: cs => some (.object [] none, cs)
  | cs =>
    (pairsRest value (cs.length + 1) [] cs).map fun (fields, cs) =>
      (.object (fieldDocuments fields) none, cs)

/-- A value that is no array and no inline table. -/
def scalar? (cs : List Char) : Option (Document × List Char) :=
  match cs with
  | 't' :: 'r' :: 'u' :: 'e' :: cs => some (.bool true, cs)
  | 'f' :: 'a' :: 'l' :: 's' :: 'e' :: cs => some (.bool false, cs)
  | cs =>
    match string? cs with
    | some (s, cs) => some (.string (String.ofList s), cs)
    | none =>
      match moment? cs with
      | some (text, cs) => some (momentDocument text, cs)
      | none => (number? cs).map fun (n, cs) => (n.toDocument, cs)

/-- A value with at most `depth` arrays and inline tables inside one another. -/
def value? : (depth : Nat) → ValueScan
  | depth + 1, '[' :: cs =>
    (itemsRest (value? depth) (cs.length + 1) cs).map fun (items, cs) => (.array items none, cs)
  | depth + 1, '\x7b' :: cs => inlineTable? (value? depth) cs
  | _, cs => scalar? cs

/-- How many arrays and inline tables may lie inside one another. -/
def maxDepth : Nat := 79

/-- One line of a document. -/
def line? (b : Builder) (cs : List Char) : Option (Builder × List Char) :=
  match skipBlanks cs with
  | '[' :: '[' :: cs => do
    let (parts, cs) ← key? cs
    let cs ← (Calendar.literal? ']' cs).bind (Calendar.literal? ']')
    let b ← b.arrayHeader? parts
    some (b, cs)
  | '[' :: cs => do
    let (parts, cs) ← key? cs
    let cs ← Calendar.literal? ']' cs
    let b ← b.header? parts
    some (b, cs)
  | cs =>
    match cs with
    | [] | '#' :: _ | '\n' :: _ | '\r' :: _ => some (b, cs)
    | _ => do
      let ((parts, d), cs) ← pair? (value? maxDepth) cs
      let b ← b.add? parts d
      some (b, cs)

/-- All lines of a document. -/
def lines : (fuel : Nat) → Builder → List Char → Option Builder
  | 0, _, _ => none
  | _ + 1, b, [] => some b
  | fuel + 1, b, cs => do
    let (b, cs) ← line? b cs
    let cs ← lineEnd? cs
    lines fuel b cs

/-- Read a whole text. A byte order mark in front is passed over. -/
def read? (text : String) : Option Document := do
  let cs := match text.toList with
    | '\ufeff' :: cs => cs
    | cs => cs
  let b ← lines (cs.length + 1) {} cs
  let root ← b.close?
  some (.object (fieldDocuments root) none)

end VenueLink.Toml

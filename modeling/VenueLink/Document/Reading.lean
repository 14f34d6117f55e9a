import VenueLink.Document.Scan

/-!
# Readings: typed values out of documents

A `Reading α` takes a document to a value of type `α` or to the first fault met from left to
right. `Fields α` describes the fields of a record; `Fields.read` accepts the record as an
object, where unknown keys are skipped and a known key may not be repeated, or as an array of
the fields in their order.

`readText` reads a whole text, `readJson` a JSON value. A value that is already JSON has one
kind of fault only, that its form is wrong.
-/

namespace VenueLink

/-- How a typed value is read from a document. -/
abbrev Reading (α : Type) := Document → Except Fault α

/-- Read a whole text: one document and blanks around it. -/
def readText (r : Reading α) (text : String) : Except Fault α := do
  let (d, rest) := Document.scan text.toList
  let a ← r d
  if rest.all Document.isSpace then .ok a else .error .malformed

/-- Read a JSON value. -/
def readJson (r : Reading α) (j : Json) : Except Fault α :=
  (r (Document.ofJson j)).mapError fun _ => .mismatch

namespace Reading

/-- Any JSON value. -/
def json : Reading Json :=
  Document.toJson

/-- A truth value. -/
def bool : Reading Bool
  | .bool b => .ok b
  | d => .error d.misfit

/-- A string. -/
def string : Reading String
  | .string s => .ok s
  | d => .error d.misfit

/-- A string that `f` accepts. -/
def stringWith (f : String → Option α) : Reading α
  | .string s => match f s with
    | some a => .ok a
    | none => .error .mismatch
  | d => .error d.misfit

/-- An integer from `low` to `high`. -/
def integer (low high : Int) : Reading Int
  | .integer i => if low ≤ i && i ≤ high then .ok i else .error .mismatch
  | d => .error d.misfit

/-- A signed 64-bit integer. -/
def int64 : Reading Int :=
  integer Text.minInt64 Text.maxInt64

/-- A signed 32-bit integer. -/
def int32 : Reading Int :=
  integer (-2147483648) 2147483647

/-- An unsigned integer below `bound`. -/
def natBelow (bound : Nat) : Reading Nat := fun d =>
  (integer 0 (bound - 1) d).map Int.toNat

/-- An unsigned 32-bit integer. -/
def nat32 : Reading Nat :=
  natBelow 4294967296

/-- An unsigned 64-bit integer. -/
def nat64 : Reading Nat :=
  natBelow 18446744073709551616

/-- A double; an integer is rounded to one. -/
def double : Reading Double
  | .double x => .ok x
  | .integer i => .ok (.ofInt i)
  | d => .error d.misfit

/-- A value that may be `null`. -/
def optional (r : Reading α) : Reading (Option α)
  | .null => .ok none
  | d => (r d).map some

/-- Every item of a list, from left to right. -/
def items (r : Reading α) : List Document → Except Fault (List α)
  | [] => .ok []
  | d :: ds => do
    let a ← r d
    let rest ← items r ds
    .ok (a :: rest)

/-- A list of values. -/
def list (r : Reading α) : Reading (List α)
  | .array ds broken => do
    let xs ← items r ds
    match broken with
    | some f => .error f
    | none => .ok xs
  | d => .error d.misfit

/-- One of several names: the name as a string, or an object with the name as its only key and
`null` as its value. -/
def choice (f : String → Option α) : Reading α
  | .string s => match f s with
    | some a => .ok a
    | none => .error .mismatch
  | .object ((.named s, d) :: rest) broken =>
    match f s with
    | none => .error .mismatch
    | some a =>
      match d with
      | .null =>
        if !rest.isEmpty then .error .malformed
        else match broken with
          | some fault => .error fault
          | none => .ok a
      | d => .error d.misfit
  | .object ((.flawed _ fault, _) :: _) _ => .error fault
  | .object [] broken => .error (broken.getD .malformed)
  | .flawed _ fault _ => .error fault
  | _ => .error .malformed

end Reading

/-- A field of a record: its key, what its value must satisfy, and whether an array may end
before it. -/
structure Slot where
  key : String
  check : Document → Option Fault
  omissible : Bool

/-- The fields of a record of type `α`, in order, and how the record is built from their values.
-/
structure Fields (α : Type) where
  slots : List Slot
  build : (String → Option Document) → Except Fault α

namespace Fields

/-- The fault of a reading that failed. -/
def faultOf : Except Fault α → Option Fault
  | .ok _ => none
  | .error f => some f

/-- A field whose value `r` reads. `missing` stands in for a key that is absent from an object,
and `omitted` for one that an array ends before. -/
def fieldWith (key : String) (r : Reading α) (missing : Option α) (omissible : Bool) :
    Fields α where
  slots := [⟨key, fun d => faultOf (r d), omissible⟩]
  build values := match values key with
    | some d => r d
    | none => match missing with
      | some a => .ok a
      | none => .error .mismatch

/-- A field that must be there. -/
def field (key : String) (r : Reading α) : Fields α :=
  fieldWith key r none false

/-- A field with a default. -/
def fieldOr (key : String) (r : Reading α) (default : α) : Fields α :=
  fieldWith key r (some default) true

/-- A field that may be absent or `null`. -/
def optionalField (key : String) (r : Reading α) : Fields (Option α) :=
  fieldOr key (Reading.optional r) none

/-- A field that an object may leave out, but an array may not. -/
def keyedField (key : String) (r : Reading α) : Fields (Option α) :=
  fieldWith key (Reading.optional r) (some none) false

/-- No fields. -/
def const (a : α) : Fields α where
  slots := []
  build _ := .ok a

/-- The fields of `f`, then the fields of `x`. -/
def and (f : Fields (α → β)) (x : Fields α) : Fields β where
  slots := f.slots ++ x.slots
  build values := do
    let g ← f.build values
    let a ← x.build values
    .ok (g a)

@[inherit_doc and]
instance : Seq Fields := ⟨fun f x => f.and (x ())⟩

instance : Functor Fields where
  map f x := (const f).and x

/-- Go through the fields of an object; `found` holds the known ones met so far. -/
def collect (slots : List Slot) (found : List (String × Document)) :
    List (Key × Document) → Except Fault (List (String × Document))
  | [] => .ok found
  | (.flawed f _, _) :: _ => .error f
  | (.named k, d) :: rest =>
    match slots.find? (·.key == k) with
    | some slot =>
      if (found.lookup k).isSome then .error .mismatch
      else match slot.check d with
        | some f => .error f
        | none => collect slots ((k, d) :: found) rest
    | none =>
      match d.skipFault with
      | some f => .error f
      | none => collect slots found rest

/-- Go through the items of an array, one for each field in order. -/
def collectItems (broken : Option Fault) :
    List Slot → List Document → Except Fault (List (String × Document))
  | [], [] => match broken with
    | some f => .error f
    | none => .ok []
  | [], _ :: _ => .error .malformed
  | slot :: slots, [] =>
    match broken with
    | some f => .error f
    | none => if slot.omissible then collectItems broken slots [] else .error .mismatch
  | slot :: slots, d :: ds =>
    match slot.check d with
    | some f => .error f
    | none => do
      let rest ← collectItems broken slots ds
      .ok ((slot.key, d) :: rest)

/-- Read a record from an object or from an array. -/
def read (r : Fields α) : Reading α
  | .object fields broken => do
    let found ← collect r.slots [] fields
    match broken with
    | some f => .error f
    | none => r.build fun key => found.lookup key
  | .array ds broken => do
    let found ← collectItems broken r.slots ds
    r.build fun key => found.lookup key
  | d => .error d.misfit

end Fields

end VenueLink

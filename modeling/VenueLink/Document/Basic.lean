import VenueLink.Json.Basic

/-!
# Documents met from left to right

A `Document` is what a reader meets when it goes through a text once: values in their order,
repeated keys included, up to the first place where the text stops being JSON. Such a place is
not an error of the whole text, since a reader may have found a reason to stop before it; it is
a `flawed` part, and whoever comes to it fails with its fault.

Some flaws only concern those who want the value: a number too large for a double or half of a
surrogate pair can still be skipped, as can a value nested too deeply. Others are met sooner by
a reader that expects one of several names, since it looks for a quote or a brace first. A
flawed part therefore carries a fault for each of these readers.

Main statement: a JSON value seen as a document can be skipped (`skipFault_ofJson`).
-/

namespace VenueLink

/-- Why a text or a value could not be read as what was asked for. -/
inductive Fault where
  /-- It is JSON, but not of the right form. -/
  | mismatch
  /-- It is not JSON. -/
  | malformed
  /-- It ended too early. -/
  | truncated
deriving DecidableEq

/-- The key of a field as it is met. -/
inductive Key where
  /-- A proper key. -/
  | named (name : String)
  /-- No proper key: `fault` is met by readers of a field, `choice` by readers of an
  alternative. -/
  | flawed (fault choice : Fault)
deriving DecidableEq

/-- A document as it is met from left to right. In an array or object, `broken` is the fault
that stands where a comma or the end was due, if any; nothing is known of what follows it. A
flawed part gives `fault` to readers of a value, `choice` to readers of one of several names,
and `skipped` to those who skip it. -/
inductive Document where
  | null
  | bool (b : Bool)
  | integer (i : Int)
  | double (d : Double)
  | string (s : String)
  | array (items : List Document) (broken : Option Fault)
  | object (fields : List (Key × Document)) (broken : Option Fault)
  | flawed (fault choice : Fault) (skipped : Option Fault)

namespace Document

mutual

/-- Equality of documents is decidable. -/
def decEq : (a b : Document) → Decidable (a = b)
  | null, b => match b with
    | null => isTrue rfl
    | bool _ | integer _ | double _ | string _ | array .. | object .. | flawed .. =>
      isFalse nofun
  | bool x, b => match b with
    | bool y => if h : x = y then isTrue (h ▸ rfl) else isFalse fun e => h (by injection e)
    | null | integer _ | double _ | string _ | array .. | object .. | flawed .. => isFalse nofun
  | integer x, b => match b with
    | integer y => if h : x = y then isTrue (h ▸ rfl) else isFalse fun e => h (by injection e)
    | null | bool _ | double _ | string _ | array .. | object .. | flawed .. => isFalse nofun
  | double x, b => match b with
    | double y => if h : x = y then isTrue (h ▸ rfl) else isFalse fun e => h (by injection e)
    | null | bool _ | integer _ | string _ | array .. | object .. | flawed .. => isFalse nofun
  | string x, b => match b with
    | string y => if h : x = y then isTrue (h ▸ rfl) else isFalse fun e => h (by injection e)
    | null | bool _ | integer _ | double _ | array .. | object .. | flawed .. => isFalse nofun
  | array xs f, b => match b with
    | array ys g =>
      if hf : f = g then match decEqItems xs ys with
        | isTrue h => isTrue (by rw [hf, h])
        | isFalse h => isFalse fun e => h (by injection e)
      else isFalse fun e => hf (by injection e)
    | null | bool _ | integer _ | double _ | string _ | object .. | flawed .. => isFalse nofun
  | object xs f, b => match b with
    | object ys g =>
      if hf : f = g then match decEqFields xs ys with
        | isTrue h => isTrue (by rw [hf, h])
        | isFalse h => isFalse fun e => h (by injection e)
      else isFalse fun e => hf (by injection e)
    | null | bool _ | integer _ | double _ | string _ | array .. | flawed .. => isFalse nofun
  | flawed f c k, b => match b with
    | flawed f' c' k' =>
      if h : f = f' ∧ c = c' ∧ k = k' then isTrue (by rw [h.1, h.2.1, h.2.2])
      else isFalse fun e => h (by injection e with hf hc hk; exact ⟨hf, hc, hk⟩)
    | null | bool _ | integer _ | double _ | string _ | array .. | object .. => isFalse nofun

/-- Equality of lists of documents is decidable. -/
def decEqItems : (xs ys : List Document) → Decidable (xs = ys)
  | [], ys => match ys with
    | [] => isTrue rfl
    | _ :: _ => isFalse nofun
  | x :: xs, ys => match ys with
    | [] => isFalse nofun
    | y :: ys => match decEq x y, decEqItems xs ys with
      | isTrue h, isTrue t => isTrue (by rw [h, t])
      | isFalse h, _ => isFalse fun e => h (by injection e)
      | _, isFalse t => isFalse fun e => t (by injection e)

/-- Equality of lists of fields is decidable. -/
def decEqFields : (xs ys : List (Key × Document)) → Decidable (xs = ys)
  | [], ys => match ys with
    | [] => isTrue rfl
    | _ :: _ => isFalse nofun
  | (k, x) :: xs, ys => match ys with
    | [] => isFalse nofun
    | (l, y) :: ys =>
      if hk : k = l then match decEq x y, decEqFields xs ys with
        | isTrue h, isTrue t => isTrue (by rw [hk, h, t])
        | isFalse h, _ => isFalse fun e => h (by injection e with e; injection e)
        | _, isFalse t => isFalse fun e => t (by injection e)
      else isFalse fun e => hk (by injection e with e; injection e)

end

instance : DecidableEq Document := decEq

/-- The fault met by a reader that skips the document. -/
def skipFault : Document → Option Fault
  | array _ broken => broken
  | object _ broken => broken
  | flawed _ _ skipped => skipped
  | _ => none

/-- The fault met by a reader that expects a value of another form. -/
def misfit : Document → Fault
  | flawed fault _ _ => fault
  | _ => .mismatch

mutual

/-- A JSON value as a document. -/
def ofJson : Json → Document
  | .null => null
  | .bool b => bool b
  | .integer i => integer i
  | .double d => double d
  | .string s => string s
  | .array items => array (ofItems items) none
  | .object fields => object (ofFields fields) none

/-- The items of a JSON array as documents. -/
def ofItems : List Json → List Document
  | [] => []
  | x :: xs => ofJson x :: ofItems xs

/-- The fields of a JSON object as documents. -/
def ofFields : List (String × Json) → List (Key × Document)
  | [] => []
  | (k, x) :: xs => (.named k, ofJson x) :: ofFields xs

end

mutual

/-- The JSON value of a document without flaws; of repeated keys the last counts. -/
def toJson : Document → Except Fault Json
  | null => .ok .null
  | bool b => .ok (.bool b)
  | integer i => .ok (.integer i)
  | double d => .ok (.double d)
  | string s => .ok (.string s)
  | array items broken => do
    let xs ← toItems items
    match broken with
    | some f => .error f
    | none => .ok (.array xs)
  | object fields broken => do
    let xs ← toFields [] fields
    match broken with
    | some f => .error f
    | none => .ok (.object xs)
  | flawed f _ _ => .error f

/-- The values of documents without flaws. -/
def toItems : List Document → Except Fault (List Json)
  | [] => .ok []
  | x :: xs => do
    let y ← toJson x
    let ys ← toItems xs
    .ok (y :: ys)

/-- The fields of an object, put into `acc` one after the other. -/
def toFields (acc : List (String × Json)) :
    List (Key × Document) → Except Fault (List (String × Json))
  | [] => .ok acc
  | (.flawed f _, _) :: _ => .error f
  | (.named k, x) :: xs => do
    let y ← toJson x
    toFields (Json.insertField k y acc) xs

end

/-- A JSON value can be skipped. -/
@[simp]
theorem skipFault_ofJson (j : Json) : (ofJson j).skipFault = none := by
  cases j <;> rfl

end Document

end VenueLink

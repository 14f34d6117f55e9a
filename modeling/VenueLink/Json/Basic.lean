import VenueLink.Number.Double

/-!
# JSON values

A JSON value keeps integers and doubles apart: `1` and `1.0` are different values. The fields of
an object are listed in increasing order of their keys, each key once; `Json.ofFields` builds
such a list from any fields, where the last value given for a key wins.

`Json.agrees` is the equality of values that a venue would notice: it tells an integer from a
double but not the two zeros of the doubles.
-/

namespace VenueLink

/-- A JSON value. Integers are those of 64 bits, signed or unsigned. -/
inductive Json where
  | null
  | bool (b : Bool)
  | integer (i : Int)
  | double (d : Double)
  | string (s : String)
  | array (items : List Json)
  | object (fields : List (String × Json))

namespace Json

instance : Inhabited Json := ⟨null⟩

mutual

/-- Equality of values is decidable. -/
def decEq : (a b : Json) → Decidable (a = b)
  | null, b => match b with
    | null => isTrue rfl
    | bool _ | integer _ | double _ | string _ | array _ | object _ => isFalse nofun
  | bool x, b => match b with
    | bool y => if h : x = y then isTrue (h ▸ rfl) else isFalse fun e => h (by injection e)
    | null | integer _ | double _ | string _ | array _ | object _ => isFalse nofun
  | integer x, b => match b with
    | integer y => if h : x = y then isTrue (h ▸ rfl) else isFalse fun e => h (by injection e)
    | null | bool _ | double _ | string _ | array _ | object _ => isFalse nofun
  | double x, b => match b with
    | double y => if h : x = y then isTrue (h ▸ rfl) else isFalse fun e => h (by injection e)
    | null | bool _ | integer _ | string _ | array _ | object _ => isFalse nofun
  | string x, b => match b with
    | string y => if h : x = y then isTrue (h ▸ rfl) else isFalse fun e => h (by injection e)
    | null | bool _ | integer _ | double _ | array _ | object _ => isFalse nofun
  | array xs, b => match b with
    | array ys => match decEqItems xs ys with
      | isTrue h => isTrue (h ▸ rfl)
      | isFalse h => isFalse fun e => h (by injection e)
    | null | bool _ | integer _ | double _ | string _ | object _ => isFalse nofun
  | object xs, b => match b with
    | object ys => match decEqFields xs ys with
      | isTrue h => isTrue (h ▸ rfl)
      | isFalse h => isFalse fun e => h (by injection e)
    | null | bool _ | integer _ | double _ | string _ | array _ => isFalse nofun

/-- Equality of lists of values is decidable. -/
def decEqItems : (xs ys : List Json) → Decidable (xs = ys)
  | [], ys => match ys with
    | [] => isTrue rfl
    | _ :: _ => isFalse nofun
  | x :: xs, ys => match ys with
    | [] => isFalse nofun
    | y :: ys => match decEq x y, decEqItems xs ys with
      | isTrue h, isTrue t => isTrue (by rw [h, t])
      | isFalse h, _ => isFalse fun e => h (by injection e)
      | _, isFalse t => isFalse fun e => t (by injection e)

/-- Equality of lists of fields is decidable. -/
def decEqFields : (xs ys : List (String × Json)) → Decidable (xs = ys)
  | [], ys => match ys with
    | [] => isTrue rfl
    | _ :: _ => isFalse nofun
  | (k, x) :: xs, ys => match ys with
    | [] => isFalse nofun
    | (l, y) :: ys =>
      if hk : k = l then match decEq x y, decEqFields xs ys with
        | isTrue h, isTrue t => isTrue (by rw [hk, h, t])
        | isFalse h, _ => isFalse fun e => h (by injection e with e; injection e)
        | _, isFalse t => isFalse fun e => t (by injection e)
      else isFalse fun e => hk (by injection e with e; injection e)

end

instance : DecidableEq Json := decEq

/-- Put a field at the place of its key; it replaces a field of the same key. -/
def insertField (key : String) (value : Json) : List (String × Json) → List (String × Json)
  | [] => [(key, value)]
  | (k, v) :: rest =>
    if key = k then (key, value) :: rest
    else if key < k then (key, value) :: (k, v) :: rest
    else (k, v) :: insertField key value rest

/-- The object with the given fields, later ones replacing earlier ones of the same key. -/
def ofFields (fields : List (String × Json)) : Json :=
  object (fields.foldl (fun acc f => insertField f.1 f.2 acc) [])

/-- The value of a field, if the value is an object that has the field. -/
def get? (key : String) : Json → Option Json
  | object fields => fields.lookup key
  | _ => none

/-- The value of a field, or `null`. -/
def getD (j : Json) (key : String) : Json :=
  (j.get? key).getD null

/-- The value is `null`. -/
def isNull : Json → Bool
  | null => true
  | _ => false

/-- The text of a string value. -/
def string? : Json → Option String
  | string s => some s
  | _ => none

/-- The truth value of a boolean. -/
def bool? : Json → Option Bool
  | bool b => some b
  | _ => none

/-- The items of an array. -/
def array? : Json → Option (List Json)
  | array items => some items
  | _ => none

/-- A string, or `null` for none. -/
def ofOption (f : α → Json) : Option α → Json
  | none => null
  | some a => f a

mutual

/-- Equality in which the two zeros of the doubles are one value. -/
def agrees : Json → Json → Bool
  | null, null => true
  | bool a, bool b => a == b
  | integer a, integer b => a == b
  | double a, double b => a.equals b
  | string a, string b => a == b
  | array xs, array ys => agreesItems xs ys
  | object xs, object ys => agreesFields xs ys
  | _, _ => false

/-- `agrees` item by item. -/
def agreesItems : List Json → List Json → Bool
  | [], [] => true
  | x :: xs, y :: ys => agrees x y && agreesItems xs ys
  | _, _ => false

/-- `agrees` field by field. -/
def agreesFields : List (String × Json) → List (String × Json) → Bool
  | [], [] => true
  | (k, x) :: xs, (l, y) :: ys => k == l && agrees x y && agreesFields xs ys
  | _, _ => false

end

mutual

/-- A value fits a pattern: an object pattern asks for each of its fields, with values that fit
in turn; any other pattern asks for an equal value. -/
def fits : (pattern value : Json) → Bool
  | object wanted, value => match value with
    | object fields => fitsFields wanted fields
    | _ => false
  | pattern, value => agrees pattern value

/-- Every wanted field is there and fits. -/
def fitsFields : (wanted fields : List (String × Json)) → Bool
  | [], _ => true
  | (k, p) :: rest, fields =>
    (match fields.lookup k with
      | some v => fits p v
      | none => false) && fitsFields rest fields

end

end Json

end VenueLink

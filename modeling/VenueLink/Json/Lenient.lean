import VenueLink.Json.Printer
import VenueLink.Number.Literal
import VenueLink.Text.Blank

/-!
# Lenient readings

A venue may send a number as a number, as a numeric string or as a truth value, and a flag or a
text as anything. The readings of this module take what they can from any JSON value and never
fail with an error: a number that cannot be had is `none`, a flag is then false and a text
empty.

`payload` picks the part of a message that carries its content.
-/

namespace VenueLink

namespace Json

/-- The number of a number, a numeric string or a truth value. -/
def asDouble? : Json → Option Double
  | integer i => some (.ofInt i)
  | double d => some d
  | string s => Double.ofText? (Text.trim s)
  | bool b => some (if b then .one else .zero)
  | _ => none

/-- The integer part of a number as a 64-bit integer, cut to the range. -/
def asInt? : Json → Option Int
  | integer i =>
    if i ≤ Text.maxInt64 then some i
    else some ((Double.ofInt i).truncate Text.minInt64 Text.maxInt64)
  | j => j.asDouble?.map (·.truncate Text.minInt64 Text.maxInt64)

/-- Neither `null`, nor false, nor zero, nor the empty string. -/
def isTruthy : Json → Bool
  | null => false
  | bool b => b
  | integer i => i ≠ 0
  | double d => !d.isZero
  | string s => s ≠ ""
  | array _ => true
  | object _ => true

/-- The text of a value: a string as it is, `null` as nothing, and anything else as JSON. -/
def asText : Json → String
  | null => ""
  | string s => s
  | j => j.compact

/-- A double as a number, or `null` if it is not finite. -/
def ofDouble (d : Double) : Json :=
  if d.isFinite then double d else null

/-- The first of the fields that is there and not `null`, else the whole value. -/
def payload (keys : List String) (raw : Json) : Json :=
  ((keys.filterMap raw.get?).find? (!·.isNull)).getD raw

end Json

end VenueLink

import VenueLink.Document.Reading
import VenueLink.Json.Lenient
import VenueLink.Text.Split

/-!
# Balances

A balance of an account in normal form, and how balances are taken from a message of the venue.
A message may carry its list of balances in several places; `Balance.listed?` looks through them
in order. Fields that are missing or of the wrong form count as zero, false or the empty text.
-/

namespace VenueLink

/-- A balance in normal form. -/
structure Balance where
  id : Int
  userId : Int
  /-- 1 for real money, 4 for practice. -/
  kind : Int
  amount : Double
  enrolledAmount : Double
  enrolledSumAmount : Double
  holdAmount : Double
  ordersAmount : Double
  currency : String
  isFiat : Bool
  isMarginal : Bool
  hasDeposits : Bool
  authAmount : Double
  equivalent : Double
deriving DecidableEq

namespace Balance

/-- The kinds asked for when the caller names none: real money and practice. -/
def defaultKinds : List Int := [1, 4]

/-- The kinds that a text lists between commas. Parts that are no 64-bit integers are passed
over, and no kinds at all stand for the default. -/
def kindsOf (raw : Option String) : List Int :=
  match raw with
  | none => defaultKinds
  | some s =>
    let parts := Text.splitOn ',' s.toList
    let kinds := parts.filterMap fun part => Text.readInt64? (Text.trimChars part)
    if kinds.isEmpty then defaultKinds else kinds

/-- A balance as JSON. -/
def toJson (b : Balance) : Json :=
  .object [("amount", .ofDouble b.amount),
    ("auth_amount", .ofDouble b.authAmount),
    ("currency", .string b.currency),
    ("enrolled_amount", .ofDouble b.enrolledAmount),
    ("enrolled_sum_amount", .ofDouble b.enrolledSumAmount),
    ("equivalent", .ofDouble b.equivalent),
    ("has_deposits", .bool b.hasDeposits),
    ("hold_amount", .ofDouble b.holdAmount),
    ("id", .integer b.id),
    ("is_fiat", .bool b.isFiat),
    ("is_marginal", .bool b.isMarginal),
    ("orders_amount", .ofDouble b.ordersAmount),
    ("type", .integer b.kind),
    ("user_id", .integer b.userId)]

open Fields in
/-- The fields of a balance. -/
def fields : Fields Balance :=
  Balance.mk <$> field "id" Reading.int64
    <*> field "user_id" Reading.int64
    <*> field "type" Reading.int64
    <*> field "amount" Reading.double
    <*> field "enrolled_amount" Reading.double
    <*> field "enrolled_sum_amount" Reading.double
    <*> field "hold_amount" Reading.double
    <*> field "orders_amount" Reading.double
    <*> field "currency" Reading.string
    <*> field "is_fiat" Reading.bool
    <*> field "is_marginal" Reading.bool
    <*> field "has_deposits" Reading.bool
    <*> field "auth_amount" Reading.double
    <*> field "equivalent" Reading.double

/-- The list of balances that a message carries: the payload itself, its `balances`, or the
`balances` of its `result`. -/
def listed? (raw : Json) : Option (List Json) :=
  let payload := raw.payload ["msg", "message"]
  match payload.array? with
  | some entries => some entries
  | none =>
    match (payload.get? "balances").bind Json.array? with
    | some entries => some entries
    | none => ((payload.get? "result").bind (·.get? "balances")).bind Json.array?

/-- A balance in normal form from an entry of the venue. -/
def ofEntry (entry : Json) : Balance :=
  let number (key : String) : Double := (entry.getD key).asDouble?.getD .zero
  let integer (key : String) : Int := (entry.getD key).asInt?.getD 0
  let flag (key : String) : Bool := (entry.getD key).isTruthy
  { id := integer "id"
    userId := integer "user_id"
    kind := integer "type"
    amount := number "amount"
    enrolledAmount := number "enrolled_amount"
    enrolledSumAmount := number "enrolled_sum_amount"
    holdAmount := number "hold_amount"
    ordersAmount := number "orders_amount"
    currency := (entry.getD "currency").asText
    isFiat := flag "is_fiat"
    isMarginal := flag "is_marginal"
    hasDeposits := flag "has_deposits"
    authAmount := number "auth_amount"
    equivalent := number "equivalent" }

/-- The balance is of one of the kinds; no kinds stand for all. -/
def isOfKind (kinds : List Int) (b : Balance) : Bool :=
  kinds.isEmpty || kinds.contains b.kind

/-- The balances of the given kinds that a message carries, in the order of the message. -/
def extract (raw : Json) (kinds : List Int) : List Balance :=
  match listed? raw with
  | some entries => (entries.map ofEntry).filter (isOfKind kinds)
  | none => []

end Balance

end VenueLink

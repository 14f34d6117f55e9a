import VenueLink.Balance
import VenueLink.Document.Reading

/-!
# Accounts

What a caller logs in with, what a login answers, and the part of an account's profile that
orders need. The answers of the operations stand beside them.
-/

namespace VenueLink

/-- What a caller logs in with. -/
structure Credentials where
  identifier : String
  password : String
  twoFactorCode : Option String
deriving DecidableEq

namespace Credentials

open Fields in
/-- The fields of credentials. -/
def fields : Fields Credentials :=
  Credentials.mk <$> field "identifier" Reading.string
    <*> field "password" Reading.string
    <*> optionalField "twoFactorCode" Reading.string

/-- Credentials as JSON. -/
def toJson (c : Credentials) : Json :=
  .object [("identifier", .string c.identifier),
    ("password", .string c.password),
    ("twoFactorCode", .ofOption .string c.twoFactorCode)]

end Credentials

/-- What came of a login: whether the venue accepted it, and its answer. -/
structure LoginOutcome where
  success : Bool
  raw : Json
deriving DecidableEq

/-- The part of an account's profile that orders need. -/
structure Profile where
  userGroupId : Int := 0
  isRegulated : Bool := false
  balanceId : Int := 0
deriving DecidableEq

namespace Profile

open Fields in
/-- The fields of a profile. -/
def fields : Fields Profile :=
  Profile.mk <$> field "user_group_id" Reading.int64
    <*> field "is_regulated" Reading.bool
    <*> field "balance_id" Reading.int64

/-- A profile as JSON. -/
def toJson (p : Profile) : Json :=
  .object [("balance_id", .integer p.balanceId),
    ("is_regulated", .bool p.isRegulated),
    ("user_group_id", .integer p.userGroupId)]

end Profile

/-- The answer to a login. The token is never shown; the session keeps it. -/
def LoginOutcome.toJson (o : LoginOutcome) : Json :=
  .object [("raw", o.raw), ("success", .bool o.success), ("token", .null)]

/-- The answer to a request for balances. -/
structure BalanceReport where
  success : Bool
  balances : List Balance
deriving DecidableEq

namespace BalanceReport

/-- The answer where the balances could not be had. -/
def failed : BalanceReport :=
  ⟨false, []⟩

/-- The answer as JSON. -/
def toJson (r : BalanceReport) : Json :=
  .object [("balances", .array (r.balances.map Balance.toJson)), ("success", .bool r.success)]

open Fields in
/-- The fields of the answer. -/
def fields : Fields BalanceReport :=
  BalanceReport.mk <$> field "success" Reading.bool
    <*> field "balances" (Reading.list Balance.fields.read)

end BalanceReport

/-- The answer to a search for an instrument, with every message seen on the way. -/
structure Resolved where
  success : Bool
  instrumentId : Option String
  raw : List Json
deriving DecidableEq

namespace Resolved

/-- The answer as JSON. -/
def toJson (r : Resolved) : Json :=
  .object [("instrument_id", .ofOption .string r.instrumentId),
    ("raw", .array r.raw),
    ("success", .bool r.success)]

end Resolved

/-- The answer to a placement. -/
structure PlacementReport where
  success : Bool
  orderId : Option Int
  raw : Option Json
deriving DecidableEq

namespace PlacementReport

/-- The answer as JSON; absent parts are left out. -/
def toJson (r : PlacementReport) : Json :=
  .object ((r.orderId.map fun id => ("orderId", Json.integer id)).toList ++
    (r.raw.map fun raw => ("raw", raw)).toList ++ [("success", .bool r.success)])

open Fields in
/-- The fields of the answer. -/
def fields : Fields PlacementReport :=
  PlacementReport.mk <$> field "success" Reading.bool
    <*> keyedField "orderId" Reading.int64
    <*> keyedField "raw" Reading.json

end PlacementReport

/-- The answer to a question for the state of an order. -/
structure StatusReport where
  success : Bool
  raw : Json
deriving DecidableEq

/-- The answer as JSON. -/
def StatusReport.toJson (r : StatusReport) : Json :=
  .object [("raw", r.raw), ("success", .bool r.success)]

end VenueLink

import VenueLink.Instrument
import VenueLink.Number.Decimal

/-!
# Orders as a caller submits them

An order request names a side in one of two ways and an instrument by its id, by a ticker, or
not at all. `Request.resolvedSide` and `Request.tickerToResolve` say what is meant. Side and
action stay plain texts in a request, so that a wrong one is an error of the order and not of
its form.
-/

namespace VenueLink.Order

/-- The side of an order. -/
inductive Side where
  | buy
  | sell
deriving DecidableEq

namespace Side

/-- The name of a side. -/
def name : Side → String
  | buy => "buy"
  | sell => "sell"

/-- The side of a name. -/
def ofName? : String → Option Side
  | "buy" => some buy
  | "sell" => some sell
  | _ => none

/-- A side by its name. -/
def reading : Reading Side :=
  Reading.choice ofName?

/-- The side that a caller names. -/
def ofText (s : String) : Except OperationError Side :=
  match ofName? s with
  | some side => .ok side
  | none => .error (.client ("invalid side '" ++ s ++ "'"))

end Side

/-- A decimal amount from an integer, a double or a text. -/
def amountReading : Reading Decimal
  | .integer i => match Decimal.ofInt? i with
    | some a => .ok a
    | none => .error .mismatch
  | .double d => match Decimal.ofDouble? d with
    | some a => .ok a
    | none => .error .mismatch
  | d => Reading.stringWith Decimal.ofText? d

/-- A decimal amount as JSON. -/
def amountJson (a : Decimal) : Json :=
  .string a.text

/-- An order as a caller submits it. -/
structure Request where
  userBalanceId : Int
  family : Instrument.Family
  instrumentId : Option String
  side : Option String
  action : Option String
  amount : Decimal
  leverage : Option Int
  limitPrice : Option Decimal
  stopPrice : Option Decimal
  stopLoseValue : Option Decimal
  stopLoseKind : Option String
  takeProfitValue : Option Decimal
  takeProfitKind : Option String
deriving DecidableEq

namespace Request

open Fields in
/-- The fields of an order request. -/
def fields : Fields Request :=
  Request.mk <$> fieldOr "user_balance_id" Reading.int64 0
    <*> fieldOr "instrument_type" Instrument.Family.reading .digitalOption
    <*> optionalField "instrument_id" Reading.string
    <*> optionalField "side" Reading.string
    <*> optionalField "action" Reading.string
    <*> field "amount" amountReading
    <*> optionalField "leverage" Reading.int32
    <*> optionalField "limit_price" amountReading
    <*> optionalField "stop_price" amountReading
    <*> optionalField "stop_lose_value" amountReading
    <*> optionalField "stop_lose_kind" Reading.string
    <*> optionalField "take_profit_value" amountReading
    <*> optionalField "take_profit_kind" Reading.string

/-- An order request as JSON. -/
def toJson (r : Request) : Json :=
  .object [("action", .ofOption .string r.action),
    ("amount", amountJson r.amount),
    ("instrument_id", .ofOption .string r.instrumentId),
    ("instrument_type", .string r.family.name),
    ("leverage", .ofOption .integer r.leverage),
    ("limit_price", .ofOption amountJson r.limitPrice),
    ("side", .ofOption .string r.side),
    ("stop_lose_kind", .ofOption .string r.stopLoseKind),
    ("stop_lose_value", .ofOption amountJson r.stopLoseValue),
    ("stop_price", .ofOption amountJson r.stopPrice),
    ("take_profit_kind", .ofOption .string r.takeProfitKind),
    ("take_profit_value", .ofOption amountJson r.takeProfitValue),
    ("user_balance_id", .integer r.userBalanceId)]

/-- The side of an order: the action decides if it is `CALL` or `PUT`, else the side. -/
def resolvedSide (r : Request) : Except OperationError Side :=
  if r.action = some "CALL" then .ok .buy
  else if r.action = some "PUT" then .ok .sell
  else match r.side.bind Side.ofName? with
    | some side => .ok side
    | none => .error (.client "Provide either action=CALL|PUT or side=buy|sell")

/-- The instrument id without blanks around it; none counts as empty. -/
def namedInstrument (r : Request) : String :=
  Text.trim (r.instrumentId.getD "")

/-- The ticker to look up, if the order names no instrument or names one by its ticker. -/
def tickerToResolve (r : Request) : Option String :=
  let id := r.namedInstrument
  if id = "" then some Instrument.defaultTicker
  else if Instrument.looksLikeTicker id then some (Text.upperAscii id)
  else none

end Request

end VenueLink.Order

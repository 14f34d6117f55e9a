import VenueLink.Calendar.Timestamp
import VenueLink.Order.Basic
import VenueLink.Uuid

/-!
# Orders as they are kept

An acknowledged order is kept as a record. `Draft.details` fills a record from the request and
the acknowledgement, with defaults for what the request leaves open; identity and times are
added when the record is stamped.
-/

namespace VenueLink.Order

/-- Nonzero id of an order that a message carries, under `id` or, where that is missing or
`null`, under `order_id`. -/
def idIn? (raw : Json) : Option Int :=
  let payload := raw.payload ["msg", "result", "message"]
  let id := ((payload.get? "id").filter (!·.isNull)).orElse fun _ => payload.get? "order_id"
  (id.bind Json.asInt?).filter (· ≠ 0)

/-- The message refuses an order: it answers a placement with a status other than 200. -/
def isRejection (raw : Json) : Bool :=
  match raw.get? "name" with
  | some (.string "order-placed-temp") =>
    let status := raw.getD "status"
    status.isTruthy && status.asInt? ≠ some 200
  | _ => false

/-- The field is a number or numeric text equal to an id, as doubles. -/
def isNumbered (id : Int) (field : Option Json) : Bool :=
  match field.bind Json.asDouble? with
  | some x => x.equals (.ofInt id)
  | none => false

/-- The message names the order, under `id` or `order_id`. -/
def isNamedIn (raw : Json) (id : Int) : Bool :=
  let payload := raw.payload ["msg", "result"]
  isNumbered id (payload.get? "id") || isNumbered id (payload.get? "order_id")

/-- What is kept of an order, apart from the identity and times of the record. -/
structure Details where
  userBalanceId : Int
  family : Instrument.Family
  instrumentId : String
  side : Side
  amount : Decimal
  leverage : Int
  limitPrice : Decimal
  stopPrice : Decimal
  stopLoseValue : Decimal
  stopLoseKind : String
  takeProfitValue : Decimal
  takeProfitKind : String
  brokerOrderId : Int
  status : String
  rawPlaceResponse : Json
deriving DecidableEq

/-- The record of an order. -/
structure Record where
  id : Uuid
  details : Details
  createdAt : Timestamp
  updatedAt : Timestamp
deriving DecidableEq

/-- An order on its way to the venue: the request with all that had to be found out. -/
structure Draft where
  request : Request
  side : Side
  userBalanceId : Int
  instrumentId : String
deriving DecidableEq

namespace Draft

/-- The status that an acknowledgement reports. -/
def statusIn (raw : Json) : String :=
  match (raw.payload ["msg", "result", "message"]).get? "status" with
  | some status => if status.isNull then "created" else status.asText
  | none => "created"

/-- What is kept of the order once the venue has acknowledged it. -/
def details (d : Draft) (brokerOrderId : Int) (raw : Json) : Details where
  userBalanceId := d.userBalanceId
  family := d.request.family
  instrumentId := d.instrumentId
  side := d.side
  amount := d.request.amount
  leverage := d.request.leverage.getD 1
  limitPrice := d.request.limitPrice.getD .zero
  stopPrice := d.request.stopPrice.getD .zero
  stopLoseValue := d.request.stopLoseValue.getD .zero
  stopLoseKind := d.request.stopLoseKind.getD "percent"
  takeProfitValue := d.request.takeProfitValue.getD .zero
  takeProfitKind := d.request.takeProfitKind.getD "percent"
  brokerOrderId := brokerOrderId
  status := statusIn raw
  rawPlaceResponse := raw

end Draft

/-- The record of an order kept since an instant. -/
def Details.stamped (d : Details) (id : Uuid) (since : Timestamp) : Record :=
  ⟨id, d, since, since⟩

/-- Details as JSON, without identity and times. -/
def Details.toJson (d : Details) : Json :=
  .object [("amount", amountJson d.amount),
    ("brokerOrderId", .integer d.brokerOrderId),
    ("instrumentId", .string d.instrumentId),
    ("instrumentType", .string d.family.name),
    ("leverage", .integer d.leverage),
    ("limitPrice", amountJson d.limitPrice),
    ("rawPlaceResponse", d.rawPlaceResponse),
    ("side", .string d.side.name),
    ("status", .string d.status),
    ("stopLoseKind", .string d.stopLoseKind),
    ("stopLoseValue", amountJson d.stopLoseValue),
    ("stopPrice", amountJson d.stopPrice),
    ("takeProfitKind", .string d.takeProfitKind),
    ("takeProfitValue", amountJson d.takeProfitValue),
    ("userBalanceId", .integer d.userBalanceId)]

namespace Record

/-- A record as JSON. -/
def toJson (r : Record) : Json :=
  let d := r.details
  .object [("amount", amountJson d.amount),
    ("brokerOrderId", .integer d.brokerOrderId),
    ("createdAt", .string r.createdAt.text),
    ("id", .string r.id.text),
    ("instrumentId", .string d.instrumentId),
    ("instrumentType", .string d.family.name),
    ("leverage", .integer d.leverage),
    ("limitPrice", amountJson d.limitPrice),
    ("rawPlaceResponse", d.rawPlaceResponse),
    ("side", .string d.side.name),
    ("status", .string d.status),
    ("stopLoseKind", .string d.stopLoseKind),
    ("stopLoseValue", amountJson d.stopLoseValue),
    ("stopPrice", amountJson d.stopPrice),
    ("takeProfitKind", .string d.takeProfitKind),
    ("takeProfitValue", amountJson d.takeProfitValue),
    ("updatedAt", .string r.updatedAt.text),
    ("userBalanceId", .integer d.userBalanceId)]

/-- A record from its fields in the order in which an array lists them. -/
def ofFields (id : Uuid) (userBalanceId : Int) (family : Instrument.Family)
    (instrumentId : String) (side : Side) (amount : Decimal) (leverage : Int)
    (limitPrice stopPrice stopLoseValue : Decimal) (stopLoseKind : String)
    (takeProfitValue : Decimal) (takeProfitKind : String) (brokerOrderId : Int)
    (status : String) (rawPlaceResponse : Json) (createdAt updatedAt : Timestamp) : Record :=
  ⟨id, ⟨userBalanceId, family, instrumentId, side, amount, leverage, limitPrice, stopPrice,
    stopLoseValue, stopLoseKind, takeProfitValue, takeProfitKind, brokerOrderId, status,
    rawPlaceResponse⟩, createdAt, updatedAt⟩

open Fields in
/-- The fields of a record. -/
def fields : Fields Record :=
  ofFields <$> field "id" (Reading.stringWith Uuid.ofText?)
    <*> field "userBalanceId" Reading.int64
    <*> field "instrumentType" Instrument.Family.reading
    <*> field "instrumentId" Reading.string
    <*> field "side" Side.reading
    <*> field "amount" amountReading
    <*> field "leverage" Reading.int32
    <*> field "limitPrice" amountReading
    <*> field "stopPrice" amountReading
    <*> field "stopLoseValue" amountReading
    <*> field "stopLoseKind" Reading.string
    <*> field "takeProfitValue" amountReading
    <*> field "takeProfitKind" Reading.string
    <*> field "brokerOrderId" Reading.int64
    <*> field "status" Reading.string
    <*> field "rawPlaceResponse" Reading.json
    <*> field "createdAt" (Reading.stringWith Timestamp.ofText?)
    <*> field "updatedAt" (Reading.stringWith Timestamp.ofText?)

end Record

end VenueLink.Order

import VenueLink.Order.Basic

/-!
# Frames

What is sent to the venue over the stream: the session token, or a named request that is either
made once or subscribed to. `Frame.toJson` writes a frame as an object of its name and its
content, `Frame.reading` reads one back; the content of a request is any JSON value.
-/

namespace VenueLink

/-- A named request. -/
structure Inquiry where
  name : String
  version : String
  body : Json
deriving DecidableEq

/-- What is sent to the venue. -/
inductive Frame where
  /-- The session token. -/
  | handshake (token : String)
  /-- A request made once. -/
  | send (inquiry : Inquiry)
  /-- A request for all messages of a kind from now on. -/
  | subscribe (inquiry : Inquiry)
deriving DecidableEq

namespace Inquiry

/-- A request as JSON. -/
def toJson (i : Inquiry) : Json :=
  .object [("body", i.body), ("name", .string i.name), ("version", .string i.version)]

open Fields in
/-- The fields of a request. -/
def fields : Fields Inquiry :=
  Inquiry.mk <$> field "name" Reading.string
    <*> field "version" Reading.string
    <*> field "body" Reading.json

end Inquiry

/-- What the content of a frame is. -/
inductive Frame.Kind where
  | handshake
  | send
  | subscribe
deriving DecidableEq

namespace Frame

/-- The name of a kind of frame. -/
def Kind.name : Kind → String
  | handshake => "ssid"
  | send => "sendMessage"
  | subscribe => "subscribeMessage"

/-- The kind of frame of a name. -/
def Kind.ofName? : String → Option Kind
  | "ssid" => some handshake
  | "sendMessage" => some send
  | "subscribeMessage" => some subscribe
  | _ => none

/-- A frame as JSON. -/
def toJson : Frame → Json
  | handshake token => .object [("msg", .string token), ("name", .string Kind.handshake.name)]
  | send i => .object [("msg", i.toJson), ("name", .string Kind.send.name)]
  | subscribe i => .object [("msg", i.toJson), ("name", .string Kind.subscribe.name)]

/-- The content of a frame of a kind. -/
def contentReading : Kind → Reading Frame
  | .handshake => fun d => (Reading.string d).map handshake
  | .send => fun d => (Inquiry.fields.read d).map send
  | .subscribe => fun d => (Inquiry.fields.read d).map subscribe

/-- A frame from its name and its content. -/
def ofParts (kind : Kind) (content : Json) : Except Fault Frame :=
  readJson (contentReading kind) content

/-- A frame as an object of name and content in any order, or as an array of the two. -/
def reading : Reading Frame := fun d => do
  let parts : Fields (Kind × Json) :=
    Prod.mk <$> Fields.field "name" (Reading.choice Kind.ofName?)
      <*> Fields.field "msg" Reading.json
  let (kind, content) ← parts.read d
  ofParts kind content

/-- The name of the request that the frame carries. -/
def inquiryName? : Frame → Option String
  | handshake _ => none
  | send i => some i.name
  | subscribe i => some i.name

/-! ### The frames of each operation -/

/-- Ask for the balances of the given kinds. -/
def balances (kinds : List Int) : Frame :=
  .send ⟨"get-balances", "1.0", .object [("types_ids", .array (kinds.map .integer))]⟩

/-- Ask for the instruments of a family. -/
def instruments (family : Instrument.Family) : Frame :=
  .send ⟨"get-instruments", "4.0", .object [("type", .string family.name)]⟩

/-- The filters of a subscription: the user group where it is not zero, and the regulation where
it holds. -/
def instrumentFilters (family : Instrument.Family) (userGroup : Int) (regulated : Bool) :
    Json :=
  .object ((if regulated then [("is_regulated", .bool true)] else []) ++
    [("type", .string family.name)] ++
    (if userGroup = 0 then [] else [("user_group_id", .integer userGroup)]))

/-- Ask for the instruments of a family that an account of a user group may trade. -/
def instrumentChanges (family : Instrument.Family) (userGroup : Int) (regulated : Bool) :
    Frame :=
  .subscribe ⟨"instruments-changed", "5.0",
    .object [("routingFilters", instrumentFilters family userGroup regulated)]⟩

/-- Ask for the changes of orders. -/
def orderChanges : Frame :=
  .subscribe ⟨"portfolio.order-changed", "2.0",
    .object [("routingFilters",
      .object [("instrument_type", .string Instrument.Family.digitalOption.name)])]⟩

end Frame

namespace Order

/-- The content of a placement. -/
structure Placement where
  userBalanceId : Int
  family : Instrument.Family
  instrumentId : String
  side : Side
  amount : Decimal
deriving DecidableEq

namespace Placement

/-- A placement as JSON. -/
def toJson (p : Placement) : Json :=
  .object [("amount", amountJson p.amount),
    ("instrument_id", .string p.instrumentId),
    ("instrument_type", .string p.family.name),
    ("side", .string p.side.name),
    ("user_balance_id", .integer p.userBalanceId)]

open Fields in
/-- The fields of a placement. -/
def fields : Fields Placement :=
  Placement.mk <$> field "user_balance_id" Reading.int64
    <*> field "instrument_type" Instrument.Family.reading
    <*> field "instrument_id" Reading.string
    <*> field "side" Side.reading
    <*> field "amount" amountReading

/-- Ask the venue to place an order. -/
def frame (p : Placement) : Frame :=
  .send ⟨"place-order-temp", "4.0", p.toJson⟩

end Placement

end Order

end VenueLink

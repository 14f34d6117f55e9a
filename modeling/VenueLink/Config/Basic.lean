import VenueLink.Document.Reading

/-!
# Configuration

The settings of the service at three levels: the service itself, the venue, and the time limits
of exchanges with the venue. Every setting has a default, so any part of a configuration may be
left out; what is given at one level leaves every other setting as it was.
-/

namespace VenueLink

/-- How long an exchange may take, and how long to wait between the handshake and the request,
in milliseconds. -/
structure Limit where
  deadline : Nat
  settle : Nat
deriving DecidableEq

/-- The limits of the exchanges of each operation. -/
structure Limits where
  balances : Limit := ⟨4000, 50⟩
  instruments : Limit := ⟨6000, 50⟩
  placeOrder : Limit := ⟨5000, 150⟩
  orderStatus : Limit := ⟨4000, 50⟩
deriving DecidableEq

/-- The settings for one venue. -/
structure VenueConfig where
  streamUrl : String := "wss://iqoption.com/echo/websocket"
  loginUrl : String := "https://auth.iqoption.com/api/v2/login"
  sessionUrl : String := "https://auth.iqoption.com/api/v1/session"
  profileUrl : String := "https://iqoption.com/api/getprofile"
  /-- The limit of a plain HTTP request, in seconds. -/
  httpTimeout : Nat := 10
  /-- How many messages an exchange keeps of those it saw. -/
  transcriptCap : Nat := 64
  limits : Limits := {}
deriving DecidableEq

/-- The settings of the service. -/
structure ServiceConfig where
  /-- The address that the service listens on. -/
  bind : String := "0.0.0.0:3000"
  /-- The database; without one, orders and results live in memory. -/
  databaseUrl : Option String := none
  venue : VenueConfig := {}
deriving DecidableEq

namespace Limits

/-- Limits from their fields in the order in which an array lists them. -/
def ofFields (balances balancesSettle instruments instrumentsSettle placeOrder placeOrderSettle
    orderStatus orderStatusSettle : Nat) : Limits :=
  ⟨⟨balances, balancesSettle⟩, ⟨instruments, instrumentsSettle⟩, ⟨placeOrder, placeOrderSettle⟩,
    ⟨orderStatus, orderStatusSettle⟩⟩

open Fields in
/-- The fields of the limits over the given defaults. -/
def fields (base : Limits) : Fields Limits :=
  ofFields <$> fieldOr "balances_ms" Reading.nat64 base.balances.deadline
    <*> fieldOr "balances_settle_ms" Reading.nat64 base.balances.settle
    <*> fieldOr "instruments_ms" Reading.nat64 base.instruments.deadline
    <*> fieldOr "instruments_settle_ms" Reading.nat64 base.instruments.settle
    <*> fieldOr "place_order_ms" Reading.nat64 base.placeOrder.deadline
    <*> fieldOr "place_order_settle_ms" Reading.nat64 base.placeOrder.settle
    <*> fieldOr "order_status_ms" Reading.nat64 base.orderStatus.deadline
    <*> fieldOr "order_status_settle_ms" Reading.nat64 base.orderStatus.settle

/-- Limits as JSON. -/
def toJson (l : Limits) : Json :=
  .object [("balances_ms", .integer l.balances.deadline),
    ("balances_settle_ms", .integer l.balances.settle),
    ("instruments_ms", .integer l.instruments.deadline),
    ("instruments_settle_ms", .integer l.instruments.settle),
    ("order_status_ms", .integer l.orderStatus.deadline),
    ("order_status_settle_ms", .integer l.orderStatus.settle),
    ("place_order_ms", .integer l.placeOrder.deadline),
    ("place_order_settle_ms", .integer l.placeOrder.settle)]

end Limits

namespace VenueConfig

open Fields in
/-- The fields of the settings for a venue over the given defaults. -/
def fields (base : VenueConfig) : Fields VenueConfig :=
  VenueConfig.mk <$> fieldOr "ws_url" Reading.string base.streamUrl
    <*> fieldOr "login_url" Reading.string base.loginUrl
    <*> fieldOr "session_url" Reading.string base.sessionUrl
    <*> fieldOr "profile_url" Reading.string base.profileUrl
    <*> fieldOr "http_timeout_secs" Reading.nat64 base.httpTimeout
    <*> fieldOr "transcript_cap" Reading.nat64 base.transcriptCap
    <*> fieldOr "timeouts" (Limits.fields {}).read base.limits

/-- Settings for a venue as they are read. -/
def reading : Reading VenueConfig :=
  (fields {}).read

/-- Settings for a venue as JSON. -/
def toJson (c : VenueConfig) : Json :=
  .object [("http_timeout_secs", .integer c.httpTimeout),
    ("login_url", .string c.loginUrl),
    ("profile_url", .string c.profileUrl),
    ("session_url", .string c.sessionUrl),
    ("timeouts", c.limits.toJson),
    ("transcript_cap", .integer c.transcriptCap),
    ("ws_url", .string c.streamUrl)]

end VenueConfig

namespace ServiceConfig

open Fields in
/-- The fields of the settings of the service over the given defaults. -/
def fields (base : ServiceConfig) : Fields ServiceConfig :=
  ServiceConfig.mk <$> fieldOr "bind" Reading.string base.bind
    <*> fieldOr "database_url" (Reading.optional Reading.string) base.databaseUrl
    <*> fieldOr "iqoption" VenueConfig.reading base.venue

/-- Settings of the service as they are read. -/
def reading : Reading ServiceConfig :=
  (fields {}).read

/-- Settings of the service as JSON. -/
def toJson (c : ServiceConfig) : Json :=
  .object [("bind", .string c.bind),
    ("database_url", .ofOption .string c.databaseUrl),
    ("iqoption", c.venue.toJson)]

end ServiceConfig

end VenueLink

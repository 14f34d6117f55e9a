import VenueLink.Broker.Basic
import VenueLink.Http.Form
import VenueLink.Http.MediaType
import VenueLink.Http.Route

/-!
# What a request asks for

A request is understood before anything is done: `Request.action` says what it asks for, or what
is wrong with it. A call goes to the broker, everything else is answered at once.
-/

namespace VenueLink.Http

/-- What a request asks for. -/
inductive Action where
  /-- Nothing more than this response. -/
  | respond (r : Response)
  | health
  | call (c : Call)
  | listOrders
  | upsertResult (result : DailyResult)
  | listResults (account : Option String) (date : Option Date)

/-- The version of the service. -/
def version : String := "0.1.0"

namespace Request

/-- The value that the body of a request holds. -/
def read (r : Request) (reading : Reading α) (f : α → Action) : Action :=
  if !(r.contentType.any MediaType.isJson) then
    .respond (.badRequest "Expected request with \x60Content-Type: application/json\x60")
  else
    match readText reading r.body with
    | .ok a => f a
    | .error .mismatch =>
      .respond (.badRequest "Failed to deserialize the JSON body into the target type")
    | .error _ => .respond (.badRequest "Failed to parse the request body as JSON")

/-- The value of one field of the query. -/
def field (r : Request) (name : String) (f : Option String → Action) : Action :=
  match Form.value? name (Form.fields r.query) with
  | some value => f value
  | none => .respond (.badRequest "Failed to deserialize query string")

/-- The values of two fields of the query. -/
def fields (r : Request) (first second : String) (f : Option String → Option String → Action) :
    Action :=
  r.field first fun a => r.field second fun b => f a b

/-- A login; without an identifier or a password it is not tried. -/
def login (r : Request) : Action :=
  r.read Credentials.fields.read fun c =>
    if Text.trim c.identifier = "" || c.password = "" then
      .respond (.badRequest "identifier and password are required")
    else .call (.login c)

/-- The balances of the kinds that the query lists. -/
def balances (r : Request) : Action :=
  r.field "types" fun types => .call (.balances (Balance.kindsOf types))

/-- The instrument with a ticker. -/
def instrument (r : Request) : Action :=
  r.fields "type" "ticker" fun type ticker =>
    match Instrument.Search.ofText (type.getD "auto") with
    | .error e => .respond (.ofError e)
    | .ok search =>
      match ticker.filter (Text.trim · ≠ "") with
      | none => .respond (.badRequest "ticker is required")
      | some ticker => .call (.instrument search ticker)

/-- A placement. -/
def placeOrder (r : Request) : Action :=
  r.read Order.Request.fields.read fun request => .call (.placement request)

/-- The state of an order, with its id as it is written. -/
def orderStatus (written : List Char) : Action :=
  match Form.decodeSegment? written with
  | none => .respond (.of 400 (.text "Invalid URL: Invalid UTF-8 in \x60id\x60"))
  | some text =>
    match Text.readInt64? text.toList with
    | some id => .call (.status id)
    | none =>
      .respond (.of 400
        (.text ("Invalid URL: Cannot parse \x60" ++ text ++ "\x60 to a \x60i64\x60")))

/-- A daily result to keep, for an account without blanks around it. -/
def upsertResult (r : Request) : Action :=
  r.read DailyResult.fields.read fun result =>
    let account := Text.trim result.account
    if account = "" then .respond (.badRequest "account is required")
    else .upsertResult { result with account := account }

/-- The daily results of an account and a day; an empty one counts as none. -/
def listResults (r : Request) : Action :=
  r.fields "account" "date" fun account date =>
    let account := account.filter (· ≠ "")
    match date.filter (· ≠ "") with
    | none => .listResults account none
    | some text =>
      match Date.ofQuery? text with
      | some day => .listResults account (some day)
      | none =>
        .respond (.badRequest ("invalid date '" ++ text ++ "', expected YYYY-MM-DD"))

/-- What a request on a route that allows its method asks for. -/
def actionOn (r : Request) : Route → Action
  | .health => .health
  | .login => r.login
  | .balances => r.balances
  | .instruments => r.instrument
  | .orders => if r.method = .post then r.placeOrder else .listOrders
  | .orderStatus id => orderStatus id
  | .upsertResult => r.upsertResult
  | .results => r.listResults

/-- What a request asks for. -/
def action (r : Request) : Action :=
  let route := Route.ofPath? r.path
  if r.method = .options then .respond (.bare 200 (route.map Route.allowed))
  else
    match route with
    | none => .respond (.bare 404 none)
    | some route =>
      if r.method ∈ route.allowed then r.actionOn route
      else .respond (.bare 405 (some route.allowed))

/-- A response as the method of the request wants it. -/
def finish (r : Request) (response : Response) : Response :=
  if r.method = .head then response.withoutBody else response

end Request

/-- The response to a call. -/
def Response.ofResult : CallResult → Response
  | .ok reply => .ok reply.toJson
  | .error e => .ofError e

/-- The response with what a store has returned. -/
def Response.ofStore (f : α → Response) : Except StorageError α → Response
  | .ok a => f a
  | .error e => .ofStorageError e

/-- The response on the health of the service. -/
def Response.ofPhase (phase : Link.Phase) : Response :=
  .ok (.object [("status", .string "ok"), ("stream", .string phase.name),
    ("version", .string version)])

end VenueLink.Http

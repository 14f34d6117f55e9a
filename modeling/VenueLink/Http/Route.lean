import VenueLink.Http.Message

/-!
# Routes

The paths of the service and the methods that each allows. A path matches exactly as it is
written, before anything in it is decoded.
-/

namespace VenueLink.Http

/-- What a path leads to. -/
inductive Route where
  | health
  | login
  | balances
  | instruments
  | orders
  /-- The state of an order, with its id as it is written. -/
  | orderStatus (id : List Char)
  | upsertResult
  | results
deriving DecidableEq

namespace Route

/-- The id in the path of the state of an order. -/
def orderId? (path : List Char) : Option (List Char) :=
  let front := "/api/orders/".toList
  let back := "/status".toList
  let id := (path.drop front.length).take (path.length - front.length - back.length)
  if path = front ++ id ++ back && !id.isEmpty && !id.contains '/' then some id else none

/-- What a path leads to, if anything. -/
def ofPath? (path : List Char) : Option Route :=
  match String.ofList path with
  | "/api/health" => some health
  | "/api/auth/login" => some login
  | "/api/balance" => some balances
  | "/api/instruments/resolve" => some instruments
  | "/api/orders" => some orders
  | "/api/results/upsert" => some upsertResult
  | "/api/results" => some results
  | _ => (orderId? path).map orderStatus

/-- The methods that a route allows. -/
def allowed : Route → List Method
  | health | balances | instruments | orderStatus _ | results => [.get, .head]
  | login | upsertResult => [.post]
  | orders => [.get, .head, .post]

end Route

end VenueLink.Http

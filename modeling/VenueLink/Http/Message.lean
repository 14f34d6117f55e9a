import VenueLink.Error
import VenueLink.Order.Record

/-!
# Requests and responses

An error of an operation becomes a response: what the caller did wrong is a bad request, a
missing session is unauthorized, a store that fails is an error of the service, and all else is
an error of the venue behind it.
-/

namespace VenueLink.Http

/-- The method of a request. -/
inductive Method where
  | get
  | head
  | post
  | options
  | other (name : String)
deriving DecidableEq

namespace Method

/-- The method of a name. -/
def ofName : String → Method
  | "GET" => get
  | "HEAD" => head
  | "POST" => post
  | "OPTIONS" => options
  | name => other name

/-- The name of a method. -/
def name : Method → String
  | get => "GET"
  | head => "HEAD"
  | post => "POST"
  | options => "OPTIONS"
  | other name => name

end Method

/-- A request. -/
structure Request where
  method : Method
  /-- The path and the query. -/
  target : String
  contentType : Option String
  body : String

namespace Request

/-- The target without a fragment. -/
def address (r : Request) : List Char :=
  r.target.toList.takeWhile (· != '#')

/-- The part of the target in front of the query. -/
def path (r : Request) : List Char :=
  r.address.takeWhile (· != '?')

/-- The query, which is empty where there is none. -/
def query (r : Request) : String :=
  String.ofList ((r.address.dropWhile (· != '?')).drop 1)

end Request

/-- The content of a response. -/
inductive Body where
  | empty
  | text (s : String)
  | json (j : Json)
  /-- A listing of orders. -/
  | orders (records : List Order.Record)

namespace Body

/-- The content type of a content. -/
def contentType? : Body → Option String
  | empty => none
  | text _ => some "text/plain; charset=utf-8"
  | json _ => some "application/json"
  | orders _ => some "application/json"

end Body

/-- A response. -/
structure Response where
  status : Nat
  contentType : Option String
  /-- The methods that are allowed, where the response names them. -/
  allow : Option (List Method) := none
  body : Body

namespace Response

/-- A response with a content. -/
def of (status : Nat) (body : Body) : Response where
  status := status
  contentType := body.contentType?
  body := body

/-- A response of JSON to a request that succeeded. -/
def ok (j : Json) : Response :=
  of 200 (.json j)

/-- A response without content. -/
def bare (status : Nat) (allow : Option (List Method)) : Response where
  status := status
  contentType := none
  allow := allow
  body := .empty

/-- The response without its content. -/
def withoutBody (r : Response) : Response :=
  { r with body := .empty }

/-- A response that tells an error. -/
def failure (status : Nat) (message : String) : Response :=
  of status (.json (.object [("error", .string message), ("success", .bool false)]))

/-- The response to a bad request. -/
def badRequest (message : String) : Response :=
  failure 400 message

/-- The response where the store fails. -/
def ofStorageError (e : StorageError) : Response :=
  failure 500 e.message

/-- The response to a request whose operation fails. -/
def ofError : OperationError → Response
  | .client detail => badRequest detail
  | .session detail => failure 401 detail
  | .storage e => ofStorageError e
  | e => failure 502 e.message

end Response

end VenueLink.Http

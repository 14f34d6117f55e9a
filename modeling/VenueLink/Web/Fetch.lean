import VenueLink.Json.Basic
import VenueLink.Web.Url

/-!
# Requests to web resources

A `Network` says how addresses are read and what comes back for a request, if anything does.
What a task comes to is kept together with the requests that it made (`Traced`). `fetch` checks
first that the request can be made at all.
-/

namespace VenueLink.Web

/-- The method of a request. -/
inductive Method where
  | get
  | post
deriving DecidableEq

/-- A request. -/
structure Request where
  method : Method
  url : Url
  cookie : Option String
  body : Option Json
deriving DecidableEq

/-- What comes back: the status, and the body if it is JSON. -/
structure Reply where
  status : Nat
  body : Option Json
deriving DecidableEq

/-- A web, to those who make requests. -/
structure Network where
  /-- The address that a text stands for, if it is one. -/
  address? : String → Option Url
  /-- What comes back for each request, if anything does. -/
  reply? : Request → Option Reply

/-- The network without anybody on it. -/
def offline : Network where
  address? := Url.ofText?
  reply? _ := none

/-- A result, with the requests that were made for it in their order. -/
structure Traced (α : Type) where
  result : α
  requests : List Request := []
deriving DecidableEq

instance : Monad Traced where
  pure a := ⟨a, []⟩
  bind x f := ⟨(f x.result).result, x.requests ++ (f x.result).requests⟩

/-- Make a request. -/
def send (net : Network) (r : Request) : Traced (Option Reply) :=
  ⟨net.reply? r, [r]⟩

/-- What has come of a request. -/
inductive Fetched where
  | failed (reason : String)
  | answered (reply : Reply)
deriving DecidableEq

/-- A cookie that can be sent. -/
def isCookie (s : String) : Bool :=
  s.toList.all fun c => c = '\t' || (32 ≤ c.toNat && c.toNat ≠ 127)

/-- What has come of a request to an address that can be used. -/
def Fetched.ofReply (url : Url) : Option Reply → Fetched
  | none => .failed ("error sending request for url (" ++ url.text ++ ")")
  | some reply => .answered reply

/-- Make a request to an address. -/
def fetch (net : Network) (method : Method) (address : String) (cookie : Option String)
    (body : Option Json) : Traced Fetched :=
  match net.address? address with
  | none => pure (.failed "builder error")
  | some url =>
    if !url.isWeb then pure (.failed ("builder error for url (" ++ url.text ++ ")"))
    else if !cookie.all isCookie then pure (.failed "builder error")
    else Fetched.ofReply url <$> send net ⟨method, url, cookie, body⟩

/-- The status says that the request succeeded. -/
def Reply.isSuccess (r : Reply) : Bool :=
  200 ≤ r.status && r.status < 300

/-- What a status means. -/
def reason : Nat → String
  | 100 => "Continue"
  | 101 => "Switching Protocols"
  | 102 => "Processing"
  | 200 => "OK"
  | 201 => "Created"
  | 202 => "Accepted"
  | 203 => "Non Authoritative Information"
  | 204 => "No Content"
  | 205 => "Reset Content"
  | 206 => "Partial Content"
  | 207 => "Multi-Status"
  | 208 => "Already Reported"
  | 226 => "IM Used"
  | 300 => "Multiple Choices"
  | 301 => "Moved Permanently"
  | 302 => "Found"
  | 303 => "See Other"
  | 304 => "Not Modified"
  | 305 => "Use Proxy"
  | 307 => "Temporary Redirect"
  | 308 => "Permanent Redirect"
  | 400 => "Bad Request"
  | 401 => "Unauthorized"
  | 402 => "Payment Required"
  | 403 => "Forbidden"
  | 404 => "Not Found"
  | 405 => "Method Not Allowed"
  | 406 => "Not Acceptable"
  | 407 => "Proxy Authentication Required"
  | 408 => "Request Timeout"
  | 409 => "Conflict"
  | 410 => "Gone"
  | 411 => "Length Required"
  | 412 => "Precondition Failed"
  | 413 => "Payload Too Large"
  | 414 => "URI Too Long"
  | 415 => "Unsupported Media Type"
  | 416 => "Range Not Satisfiable"
  | 417 => "Expectation Failed"
  | 418 => "I'm a teapot"
  | 421 => "Misdirected Request"
  | 422 => "Unprocessable Entity"
  | 423 => "Locked"
  | 424 => "Failed Dependency"
  | 425 => "Too Early"
  | 426 => "Upgrade Required"
  | 428 => "Precondition Required"
  | 429 => "Too Many Requests"
  | 431 => "Request Header Fields Too Large"
  | 451 => "Unavailable For Legal Reasons"
  | 500 => "Internal Server Error"
  | 501 => "Not Implemented"
  | 502 => "Bad Gateway"
  | 503 => "Service Unavailable"
  | 504 => "Gateway Timeout"
  | 505 => "HTTP Version Not Supported"
  | 506 => "Variant Also Negotiates"
  | 507 => "Insufficient Storage"
  | 508 => "Loop Detected"
  | 510 => "Not Extended"
  | 511 => "Network Authentication Required"
  | _ => "<unknown status code>"

/-- A status with its meaning. -/
def statusText (status : Nat) : String :=
  toString status ++ " " ++ reason status

end VenueLink.Web

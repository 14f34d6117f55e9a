import VenueLink.Account
import VenueLink.Calendar.Timestamp
import VenueLink.Config.Basic
import VenueLink.Session.Script
import VenueLink.Web.Fetch

/-!
# Sessions over HTTP

A session with the venue is a pass: a token and the second at which it expires. A login installs
a pass only once the venue has said when the token expires; whatever goes wrong on the way
leaves the earlier pass in place. Instants are in nanoseconds, and each operation is told the
present one. Each operation also says which requests it made.
-/

namespace VenueLink

/-- The token of a session and the second at which it expires. -/
structure Pass where
  token : String
  expires : Int
deriving DecidableEq

/-- A session with the venue. -/
structure LiveSession where
  pass : Option Pass := none
deriving DecidableEq

namespace LiveSession

open Web (Network Traced)

/-- The token in the answer to a login: at its top, or in its data where the top has no such
key. -/
def tokenIn? (body : Json) : Option String :=
  let found := (body.get? "ssid").orElse fun _ => (body.get? "data").bind (·.get? "ssid")
  (found.bind Json.string?).filter (· ≠ "")

/-- The second at which a session expires, in an answer about it. -/
def expiryIn? (body : Json) : Option Int :=
  (((body.payload ["data", "result"]).get? "expires_at").bind Json.asInt?).filter
    Timestamp.isUnixSecond

/-- The profile in an answer about it. -/
def profileIn (body : Json) : Profile :=
  let data := body.payload ["result", "data"]
  let int (key : String) : Int := ((data.get? key).bind Json.asInt?).getD 0
  ⟨int "user_group_id", ((data.get? "is_regulated").bind Json.bool?).getD false,
    int "balance_id"⟩

/-- What is sent to log in. -/
def loginBody (c : Credentials) : Json :=
  .object ([("identifier", .string c.identifier), ("password", .string c.password)] ++
    (c.twoFactorCode.map fun code => ("token", Json.string code)).toList)

/-- The token of a session that has not expired. -/
def current (s : LiveSession) (now : Int) : Except OperationError String :=
  match s.pass with
  | none => .error (.session "not logged in")
  | some pass =>
    if pass.expires * 1000000000 ≤ now then .error (.session "session expired")
    else .ok pass.token

/-- The token that is sent as the handshake. -/
def handshakeToken (s : LiveSession) (now : Int) : Option String :=
  (s.current now).toOption

/-- The JSON in what an address has answered. -/
def readJson (address : String) : Web.Fetched → Except OperationError Json
  | .failed reason => .error (.http ("GET " ++ address ++ " failed: " ++ reason))
  | .answered reply =>
    let status := Web.statusText reply.status
    if reply.status = 401 || reply.status = 403 then
      .error (.session ("venue answered " ++ status))
    else if !reply.isSuccess then
      .error (.http ("GET " ++ address ++ " answered " ++ status))
    else
      match reply.body with
      | some body => .ok body
      | none =>
        .error (.http ("Invalid JSON from " ++ address ++ ": error decoding response body"))

/-- The JSON at an address, asked for with a token. -/
def getAs (net : Network) (address token : String) : Traced (Except OperationError Json) :=
  readJson address <$> Web.fetch net .get address (some ("ssid=" ++ token)) none

/-- The JSON at an address, asked for with the token of the session. -/
def get (s : LiveSession) (net : Network) (now : Int) (address : String) :
    Traced (Except OperationError Json) :=
  match s.current now with
  | .error e => pure (.error e)
  | .ok token => getAs net address token

/-- Install a pass for a token, once the venue has said when it expires. -/
def install (s : LiveSession) (net : Network) (config : VenueConfig) (token : String) :
    Traced LiveSession := do
  match (← getAs net config.sessionUrl token).toOption.bind expiryIn? with
  | some expires => pure ⟨some ⟨token, expires⟩⟩
  | none => pure s

/-- Log in, with the requests made. -/
def loggingIn (s : LiveSession) (net : Network) (config : VenueConfig) (c : Credentials) :
    Traced (LiveSession × Except OperationError LoginOutcome) := do
  match ← Web.fetch net .post config.loginUrl none (some (loginBody c)) with
  | .failed reason => pure (s, .error (.http ("Login request failed: " ++ reason)))
  | .answered reply =>
    let raw := reply.body.getD .null
    match (tokenIn? raw).filter fun _ => reply.isSuccess with
    | some token => pure (← s.install net config token, .ok ⟨true, raw⟩)
    | none => pure (s, .ok ⟨false, raw⟩)

/-- Log in. -/
def logIn (s : LiveSession) (net : Network) (config : VenueConfig) (c : Credentials) :
    LiveSession × Except OperationError LoginOutcome :=
  (s.loggingIn net config c).result

/-- Confirm that there is a session, with the requests made. -/
def establishing (s : LiveSession) (net : Network) (config : VenueConfig) (now : Int) :
    Traced (Except OperationError Unit) :=
  (fun answer => answer.map fun _ => ()) <$> s.get net now config.sessionUrl

/-- Confirm that there is a session. -/
def establish (s : LiveSession) (net : Network) (config : VenueConfig) (now : Int) :
    Except OperationError Unit :=
  (s.establishing net config now).result

/-- Ask for the profile of the account, with the requests made. -/
def profiling (s : LiveSession) (net : Network) (config : VenueConfig) (now : Int) :
    Traced (Except OperationError Profile) :=
  (fun answer => answer.map profileIn) <$> s.get net now config.profileUrl

/-- The profile of the account. -/
def profile (s : LiveSession) (net : Network) (config : VenueConfig) (now : Int) :
    Except OperationError Profile :=
  (s.profiling net config now).result

/-- The session as it answers at an instant; it is not asked to log in again. -/
def script (s : LiveSession) (net : Network) (config : VenueConfig) (now : Int) :
    SessionScript where
  token := s.handshakeToken now
  refusal := match s.establish net config now with
    | .ok _ => none
    | .error e => some e
  profile := s.profile net config now
  login := { answer := .error (.session "already logged in") }

end LiveSession

end VenueLink

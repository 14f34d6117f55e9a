import VenueLink.Broker.Basic
import VenueLink.Command.Address
import VenueLink.Command.Invocation
import VenueLink.Config.Text
import VenueLink.Json.Printer
import VenueLink.Session.Live

/-!
# Running the program

`run` does what an invocation asks for. Everything outside the program is in its `Surroundings`:
files, the network, the wire to the venue and the present instant. A single query logs in, makes
one call and waits for its result; the server is ready once its stores, its login and its
address are in order.
-/

namespace VenueLink.Command

open Exchange

/-- What the program finds around it. -/
structure Surroundings where
  /-- The text of a file, or why it cannot be read. -/
  file : String → Except String String
  network : Web.Network
  wire : Wire
  /-- The present instant, in nanoseconds. -/
  now : Int

/-- Why the program fails. -/
inductive Failure where
  | configUnreadable (path detail : String)
  | configMalformed (path : String)
  | credentialsMissing
  | loginRejected (raw : Json)
  | operation (e : OperationError)
  | database (e : StorageError)
  | address (detail : String)

/-- What a failure is called, and what caused it. -/
def Failure.wording : Failure → String × Option String
  | configUnreadable path detail => ("reading config " ++ path, some detail)
  | configMalformed path => ("parsing config " ++ path, some "TOML parse error")
  | credentialsMissing =>
    ("IQ_IDENTIFIER and IQ_PASSWORD (or --identifier/--password) are required", none)
  | loginRejected raw => ("Login rejected: " ++ raw.compact, none)
  | operation e => (e.message, none)
  | database e => ("opening database", some e.message)
  | address detail => (detail, none)

/-- The text that tells a failure. -/
def Failure.text (f : Failure) : String :=
  match f.wording with
  | (top, none) => "Error: " ++ top ++ "\n"
  | (top, some cause) => "Error: " ++ top ++ "\n\nCaused by:\n    " ++ cause ++ "\n"

/-- What comes of an invocation. -/
inductive Outcome where
  /-- The answer of a single query. -/
  | answer (j : Json)
  /-- The server can listen on the address. -/
  | ready (address : String)

/-- The settings of an invocation. -/
def settings (w : Surroundings) (i : Invocation) : Except Failure ServiceConfig := do
  let config ← match i.config with
    | none => .ok {}
    | some path =>
      match w.file path with
      | .error detail => .error (.configUnreadable path detail)
      | .ok text =>
        match ServiceConfig.ofText? text with
        | some config => .ok config
        | none => .error (.configMalformed path)
  .ok { config with databaseUrl := i.databaseUrl.or config.databaseUrl }

/-- What to log in with, if both parts are given. -/
def Invocation.credentials (i : Invocation) : Option Credentials :=
  match i.identifier, i.password with
  | some identifier, some password => some ⟨identifier, password, none⟩
  | _, _ => none

/-- The call that a single query makes; the server makes none. -/
def Action.call : Action → Except OperationError (Option Call)
  | serve _ => .ok none
  | balances kinds => .ok (some (.balances (Balance.kindsOf (some kinds))))
  | resolve ticker search =>
    (Instrument.Search.ofText search).map fun search => some (.instrument search ticker)
  | status orderId => .ok (some (.status orderId))

/-- Open the stores. -/
def openStores (config : ServiceConfig) : Except Failure Unit :=
  match config.databaseUrl with
  | none => .ok ()
  | some url =>
    .error (.database (.database ("error with configuration: " ++
      (databaseFault? url).getD "no database can be reached")))

/-- Log in with the given credentials. -/
def logIn (w : Surroundings) (config : ServiceConfig) (c : Credentials) :
    Except Failure (LiveSession × LoginOutcome) :=
  match ({} : LiveSession).logIn w.network config.venue c with
  | (session, .ok outcome) => .ok (session, outcome)
  | (_, .error e) => .error (.operation e)

/-- Time enough for every exchange of a call. -/
def patience (l : Limits) : Nat :=
  l.balances.deadline + 2 * l.instruments.deadline + l.placeOrder.deadline +
    l.orderStatus.deadline

/-- Make one call and wait for its result. -/
def ask (w : Surroundings) (config : ServiceConfig) (session : LiveSession) (c : Call) :
    Except Failure CallReply :=
  let broker : Broker CallResult :=
    Broker.start config.venue (session.script w.network config.venue w.now) []
  let broker := { broker with board := { broker.board with wire := w.wire } }
  let broker := (broker.call "query" c id).tick (.advance (patience config.venue.limits))
  match broker.board.reports with
  | ⟨_, _, .ok reply⟩ :: _ => .ok reply
  | ⟨_, _, .error e⟩ :: _ => .error (.operation e)
  | [] => .error (.operation (.connectionLost "no answer"))

/-- Do what an invocation asks for. -/
def run (w : Surroundings) (i : Invocation) : Except Failure Outcome := do
  let config ← settings w i
  let call ← i.action.call.mapError .operation
  match call, i.credentials with
  | none, credentials =>
    openStores config
    match credentials with
    | some c => discard (logIn w config c)
    | none => .ok ()
    let address := match i.action with
      | .serve (some bind) => bind
      | _ => config.bind
    match listenFault? address with
    | some detail => .error (.address detail)
    | none => .ok (.ready address)
  | some _, none => .error .credentialsMissing
  | some call, some c =>
    let (session, outcome) ← logIn w config c
    if outcome.success then
      let reply ← ask w config session call
      .ok (.answer reply.toJson)
    else .error (.loginRejected outcome.raw)

end VenueLink.Command

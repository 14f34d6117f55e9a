import VenueLink.Broker.Call
import VenueLink.Session.Script
import VenueLink.Store.Orders
import VenueLink.Store.Results
import VenueLink.Switchboard.Step

/-!
# The broker

The operations over one shared connection, a session with the venue and the stores. Before an
operation goes to the venue, the handshake of the link is brought in step with the token of the
session. An order that the venue acknowledges is saved at once, unless the store fails.

The reports of a broker are of any type `ρ`: each call says how its result is reported.
-/

namespace VenueLink

open Exchange

/-- A broker. -/
structure Broker (ρ : Type) where
  config : VenueConfig
  session : SessionScript
  board : Switchboard Answer ρ
  orders : OrderLog := {}
  results : ResultTable := {}
  /-- The error that every operation of the stores returns, if they fail. -/
  storeFailure : Option StorageError := none

namespace Broker

/-- A broker that has done nothing yet. -/
def start (config : VenueConfig) (session : SessionScript) (responders : List Responder) :
    Broker ρ where
  config := config
  session := session
  board :=
    { Switchboard.start config.transcriptCap false with wire := { responders := responders } }

/-- Bring the handshake in step with the session. -/
def syncHandshake (b : Broker ρ) : Broker ρ :=
  let handshake := b.session.token.map fun token => (Frame.handshake token).toJson
  { b with board := { b.board with link := { b.board.link with handshake := handshake } } }

/-- An error of the session; any other error is told as one. -/
def sessionError : OperationError → OperationError
  | .session detail => .session detail
  | e => .session e.message

/-- What has to be done for a call: what changes before it starts, and its plan. -/
def prepare (b : Broker ρ) : Call → Broker ρ × (n : Nat) × Plan Answer CallResult n
  | .login credentials =>
    let (session, outcome) := b.session.logIn credentials
    let b := { b with session := session }
    match outcome with
    | .ok o => (b.syncHandshake, ⟨0, .report (.ok (.login o))⟩)
    | .error e => (b, ⟨0, .report (.error e)⟩)
  | .balances kinds =>
    match b.session.refusal with
    | some _ => (b, ⟨0, .report (.ok (.balances .failed))⟩)
    | none => (b.syncHandshake, ⟨1, Call.balancesPlan b.config.limits kinds⟩)
  | .instrument search ticker =>
    let ticker := Text.trim ticker
    if ticker = "" then (b, ⟨0, .report (.error (.client "ticker is required"))⟩)
    else
      (b.syncHandshake, ⟨_, Call.searchPlan b.config.limits ticker search.families []⟩)
  | .placement request =>
    match request.resolvedSide with
    | .error e => (b, ⟨0, .report (.error e)⟩)
    | .ok side =>
      if !request.amount.isPositive then
        (b, ⟨0, .report (.error (.client "amount must be positive"))⟩)
      else
        match b.session.refusal with
        | some e => (b, ⟨0, .report (.error (sessionError e))⟩)
        | none =>
          let profile := b.session.profile.toOption.getD {}
          (b.syncHandshake, Call.placementPlan b.config.limits profile request side)
  | .status orderId =>
    if orderId ≤ 0 then
      (b, ⟨0, .report (.error (.client ("invalid order id " ++ toString orderId)))⟩)
    else (b.syncHandshake, ⟨1, Call.statusPlan b.config.limits orderId⟩)

/-- The instant at which the record number `n` is made: records are a nanosecond apart. -/
def instantOf (n : Nat) : Timestamp :=
  (Timestamp.ofNanos? n).getD default

/-- Save what is kept of an order. -/
def save (b : Broker ρ) (kept : Order.Details) : Broker ρ :=
  match b.storeFailure with
  | some _ => b
  | none =>
    let n := b.orders.records.length
    { b with orders := b.orders.save (kept.stamped (Uuid.ofNat n) (instantOf n)) }

/-- The orders that were acknowledged from one state of the switchboard to a later one. -/
def acknowledged (before after : Switchboard Answer ρ) : List Order.Details :=
  (after.correlator.outcomes.drop before.correlator.outcomes.length).filterMap fun o =>
    o.resolution.value?.bind Answer.kept?

/-- Take a step of the switchboard, and save the orders that are acknowledged on the way. -/
def tick (b : Broker ρ) (step : Switchboard.Step Answer ρ) : Broker ρ :=
  let board := (b.board.step step).1
  (acknowledged b.board board).foldl save { b with board := board }

/-- Start a call, and say how its result is reported. -/
def call (b : Broker ρ) (label : String) (c : Call) (tell : CallResult → ρ) : Broker ρ :=
  let (b, ⟨n, plan⟩) := b.prepare c
  b.tick (.launch label n (plan.map tell))

/-- Report at once. -/
def reply (b : Broker ρ) (label : String) (r : ρ) : Broker ρ :=
  b.tick (.launch label 0 (.report r))

/-- Use the stores, unless they fail. -/
def withStores (b : Broker ρ) (f : Broker ρ → Broker ρ × α) :
    Broker ρ × Except StorageError α :=
  match b.storeFailure with
  | some e => (b, .error e)
  | none =>
    let (b, a) := f b
    (b, .ok a)

/-- The orders from the newest to the oldest. -/
def listOrders (b : Broker ρ) : Except StorageError (List Order.Record) :=
  (b.withStores fun b => (b, b.orders.newestFirst)).2

/-- Keep a daily result. -/
def upsertResult (b : Broker ρ) (result : DailyResult) :
    Broker ρ × Except StorageError DailyResult :=
  b.withStores fun b => ({ b with results := b.results.upsert result }, result)

/-- The daily results of an account and a day. -/
def listResults (b : Broker ρ) (account : Option String) (date : Option Date) :
    Except StorageError (List DailyResult) :=
  (b.withStores fun b => (b, b.results.list account date)).2

end Broker

end VenueLink

import VenueLink.Switchboard.Basic

/-!
# How a caller gets on

To have its request delivered, a caller needs an open connection, which it opens if nobody else
does; then the handshake must have been sent, and some time must have passed since. A caller
whose deadline comes before that stops, and so does one whose request cannot be sent; all others
wait for the end of their exchange, whatever has become of the exchange in the meantime.

`pursue` starts on a plan, `tend` lets a caller get on from where it is.
-/

namespace VenueLink.Switchboard

open Exchange

/-- Whether the connection can be used. -/
inductive Access where
  | blocked (stage : Stage)
  | granted (readiness : Readiness)
  | refused (error : OperationError)

/-- What has become of a request. -/
inductive Delivery where
  | blocked (stage : Stage)
  | delivered
  | failed (error : OperationError)

/-- The access of a caller that waits until the connection is open. -/
def awaitOpen (s : Switchboard α ρ) : Access :=
  match s.link.phase with
  | .connecting => .blocked .opening
  | .opened => .granted .opened
  | .closed => .refused (.connectionLost "connection closed while opening")

/-- A connection that has gone through turns out to be open, at once or after a while. -/
def announce (s : Switchboard α ρ) (generation : Nat) : Switchboard α ρ :=
  if s.wire.openDelay = 0 then s.hear [.opened generation]
  else s.arm s.wire.openDelay (.announce generation)

/-- Let an attempt to connect go through. -/
def connect (s : Switchboard α ρ) (generation : Nat) : Switchboard α ρ × Access :=
  match s.wire.connect generation with
  | .error e => (s.abandon generation, .refused e)
  | .ok wire =>
    let s := { s with wire := wire }.announce generation
    (s, s.awaitOpen)

/-- Start an attempt to connect. -/
def dial (s : Switchboard α ρ) (caller : Nat) : Switchboard α ρ × Access :=
  let stall := s.wire.stall.getD 0
  let s := { s with link := s.link.attempt, wire := s.wire.attempt }
  if stall = 0 then s.connect s.link.generation
  else (s.arm stall (.ripen caller), .blocked (.connecting s.link.generation false))

/-- Use the connection, or open it, or wait with those who are opening it. -/
def seekOpen (s : Switchboard α ρ) (caller : Nat) : Switchboard α ρ × Access :=
  match s.link.phase with
  | .opened => (s, .granted .alreadyOpen)
  | .connecting => (s, .blocked .opening)
  | .closed => s.dial caller

/-- The access of a caller that has come to a stage. -/
def access (s : Switchboard α ρ) : Stage → Switchboard α ρ × Access
  | .connecting generation true => s.connect generation
  | .opening => (s, s.awaitOpen)
  | stage => (s, .blocked stage)

/-- Send the request of an exchange. -/
def request (s : Switchboard α ρ) (exchange : Nat) (spec : Spec α) :
    Switchboard α ρ × Delivery :=
  match s.transmit (some exchange) spec.request with
  | .ok s => (s, .delivered)
  | .error e => (s, .failed e)

/-- See to the handshake of an exchange that has access, then to its request. A connection that
was open before gets the handshake anew. -/
def authenticate (s : Switchboard α ρ) (caller exchange : Nat) (spec : Spec α)
    (readiness : Readiness) : Switchboard α ρ × Delivery :=
  match s.link.handshake with
  | none => s.request exchange spec
  | some handshake =>
    match readiness with
    | .opened => pause s
    | .alreadyOpen =>
      match s.transmit none handshake with
      | .ok s => pause s
      | .error e => (s, .failed e)
where
  /-- Wait a while before the request. -/
  pause (s : Switchboard α ρ) : Switchboard α ρ × Delivery :=
    if spec.settle = 0 then s.request exchange spec
    else (s.arm spec.settle (.ripen caller), .blocked (.settling false))

/-- Go on from what access an exchange has. -/
def proceed (caller exchange : Nat) (spec : Spec α) :
    Switchboard α ρ × Access → Switchboard α ρ × Delivery
  | (s, .blocked stage) => (s, .blocked stage)
  | (s, .granted readiness) => s.authenticate caller exchange spec readiness
  | (s, .refused e) => (s, .failed e)

/-- Get on with the delivery of a request from a stage. -/
def deliver (s : Switchboard α ρ) (caller exchange : Nat) (spec : Spec α) :
    Stage → Switchboard α ρ × Delivery
  | .settling true => s.request exchange spec
  | stage => proceed caller exchange spec (s.access stage)

/-- Stop at a stage: an attempt to connect that was not finished is given up. -/
def stopAt (s : Switchboard α ρ) : Stage → Switchboard α ρ
  | .connecting generation _ => s.abandon generation
  | _ => s

/-- The stage that a caller has come to with its request. One that is late stops where it is. -/
def stageAfter (caller exchange : Nat) (late : Bool) :
    Switchboard α ρ × Delivery → Switchboard α ρ × Stage
  | (s, .blocked stage) =>
      if late then ((s.stopAt stage).disarm caller, .waiting) else (s, stage)
  | (s, .delivered) => (s.disarm caller, .waiting)
  | (s, .failed _) => ((s.failExchange exchange).disarm caller, .waiting)

/-- How the exchange of a caller at a stage has ended, if the caller is waiting for that. -/
def ending? (s : Switchboard α ρ) (exchange : Nat) : Stage → Option (Resolution α)
  | .waiting => (s.correlator.outcome? exchange).map Outcome.resolution
  | _ => none

/-- Start an exchange: register it, and get on with its request as far as that goes. -/
def begin (s : Switchboard α ρ) (caller : Nat) (spec : Spec α) : Switchboard α ρ × Stage :=
  let exchange := s.correlator.next
  let s := s.register spec.matcher spec.timeout
  let (s, stage) := stageAfter caller exchange (spec.timeout = 0)
    (proceed caller exchange spec (s.seekOpen caller))
  match stage with
  | .waiting => (s, .waiting)
  | stage => (s.arm spec.timeout (.giveUp caller), stage)

/-- Start on a plan. -/
def pursue (s : Switchboard α ρ) (id : Nat) (label : String) :
    Plan α ρ n → Switchboard α ρ
  | .report r => s.finish id label r
  | .exchange (n := n) spec next =>
    let exchange := s.correlator.next
    let (s, stage) := s.begin id spec
    match s.ending? exchange stage with
    | some r => s.pursue id label (next r)
    | none => s.keep ⟨id, label, stage, false, .exchange exchange spec n next⟩

/-- Let a caller get on. -/
def tend (s : Switchboard α ρ) (c : Caller α ρ) : Switchboard α ρ :=
  match c.goal with
  | .readiness tell =>
    match s.access c.stage with
    | (s, .blocked stage) => s.keep { c with stage := stage }
    | (s, .granted readiness) => s.finish c.id c.label (tell (.ok readiness))
    | (s, .refused e) => s.finish c.id c.label (tell (.error e))
  | .exchange exchange spec _ next =>
    let (s, stage) := match c.stage with
      | .waiting => (s, Stage.waiting)
      | stage => stageAfter c.id exchange c.late (s.deliver c.id exchange spec stage)
    match s.ending? exchange stage with
    | some r => s.pursue c.id c.label (next r)
    | none => s.keep { c with stage := stage }

/-- A new caller starts on a plan. -/
def launch (s : Switchboard α ρ) (label : String) (plan : Plan α ρ n) : Switchboard α ρ :=
  { s with next := s.next + 1 }.pursue s.next label plan

/-- A new caller asks for an open connection. -/
def ensureOpen (s : Switchboard α ρ) (label : String)
    (tell : Except OperationError Readiness → ρ) : Switchboard α ρ :=
  let id := s.next
  match { s with next := s.next + 1 }.seekOpen id with
  | (s, .blocked stage) => s.keep ⟨id, label, stage, false, .readiness tell⟩
  | (s, .granted readiness) => s.finish id label (tell (.ok readiness))
  | (s, .refused e) => s.finish id label (tell (.error e))

/-- A new caller waits for an exchange that has no request. -/
def listen (s : Switchboard α ρ) (label : String) (matcher : Matcher α) (timeout : Nat)
    (tell : Resolution α → ρ) : Switchboard α ρ :=
  let exchange := s.correlator.next
  ({ s with next := s.next + 1 }.register matcher timeout).keep
    ⟨s.next, label, .waiting, false,
      .exchange exchange ⟨.null, matcher, timeout, 0⟩ 0 fun r => .report (tell r)⟩

/-- Stop the latest caller of a label that asks for an open connection, if it is still there. -/
def cancel (s : Switchboard α ρ) (label : String) : Switchboard α ρ :=
  match s.callers.reverse.find? fun c => c.label = label && c.goal.exchange?.isNone with
  | some c => (s.stopAt c.stage).dismiss c.id
  | none => s

end VenueLink.Switchboard

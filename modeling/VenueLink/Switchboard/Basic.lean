import VenueLink.Exchange.Correlator
import VenueLink.Exchange.Plan
import VenueLink.Link.Basic
import VenueLink.Wire

/-!
# The switchboard

Many callers share one connection. A `Switchboard` holds the connection, the open exchanges, and
for each caller how far it has come: it may be in the middle of connecting, wait until the
connection is open, pause after the handshake, or wait for its answer.

Time stands still unless it is told to pass, so what happens at one instant is a list of tasks
that are ready, taken in the order in which they became ready. A task that yields lets
everything else that is ready go first, and all that follows from it.

Each open exchange has a watch over it, which is a task of its own: it sleeps until the deadline
of the exchange, yields once, and then fails the exchange. This module holds the state and its
small operations; how a caller gets on is in `VenueLink.Switchboard.Delivery`.
-/

namespace VenueLink

open Exchange

/-- How a caller found the connection. -/
inductive Readiness where
  | alreadyOpen
  /-- It was opened, and the handshake was sent. -/
  | opened
deriving DecidableEq

/-- The name of a readiness. -/
def Readiness.name : Readiness → String
  | alreadyOpen => "AlreadyOpen"
  | opened => "Opened"

/-- How far a caller has come. A pause is `ripe` once its time has passed. -/
inductive Stage where
  /-- It is about to connect; the attempt is its own. -/
  | connecting (generation : Nat) (ripe : Bool)
  /-- It waits until the connection is open. -/
  | opening
  /-- It pauses between the handshake and its request. -/
  | settling (ripe : Bool)
  /-- It waits for the end of its exchange. -/
  | waiting
deriving DecidableEq

/-- What a caller is after. -/
inductive Goal (α ρ : Type) where
  /-- That the connection is open. -/
  | readiness (tell : Except OperationError Readiness → ρ)
  /-- The end of an exchange, and then the rest of its plan. -/
  | exchange (id : Nat) (spec : Spec α) (n : Nat) (next : Resolution α → Plan α ρ n)

/-- The exchange whose end a goal is. -/
def Goal.exchange? : Goal α ρ → Option Nat
  | readiness _ => none
  | exchange id _ _ _ => some id

/-- A caller. -/
structure Caller (α ρ : Type) where
  id : Nat
  label : String
  stage : Stage
  /-- Its deadline has come. -/
  late : Bool
  goal : Goal α ρ

/-- How many more exchanges a caller may run, the present one included. -/
def Caller.remaining (c : Caller α ρ) : Nat :=
  match c.goal with
  | .readiness _ => 1
  | .exchange _ _ n _ => n + 1

/-- What happens when a timer runs out. -/
inductive Alarm where
  /-- The pause of a caller is over. -/
  | ripen (caller : Nat)
  /-- The deadline of a caller has come. -/
  | giveUp (caller : Nat)
  /-- A connection turns out to be open. -/
  | announce (generation : Nat)
  /-- The watch over an exchange has slept until the deadline. -/
  | watch (exchange : Nat)
deriving DecidableEq

/-- The caller whose timer it is. -/
def Alarm.caller? : Alarm → Option Nat
  | ripen caller => some caller
  | giveUp caller => some caller
  | announce _ => none
  | watch _ => none

/-- An alarm and the instant at which it is due. -/
structure Timer where
  due : Nat
  alarm : Alarm
deriving DecidableEq

/-- What is ready to happen. -/
inductive Task where
  /-- The signals of the wire are handled. -/
  | signals
  /-- A caller gets on. -/
  | caller (id : Nat)
  /-- A connection turns out to be open. -/
  | announce (generation : Nat)
  /-- The watch over an exchange goes to sleep, or has slept and yields. -/
  | watch (exchange : Nat)
  /-- An exchange runs into its deadline: its watch has yielded, and goes on. -/
  | expire (id : Nat)
deriving DecidableEq

/-- A report, who made it, and when. -/
structure Report (ρ : Type) where
  time : Nat
  label : String
  report : ρ

/-- Many callers on one connection. -/
structure Switchboard (α ρ : Type) where
  now : Nat := 0
  correlator : Correlator α
  link : Link := {}
  wire : Wire := {}
  /-- Signals that have not been handled, the first one in front. -/
  inbox : List Signal := []
  /-- Timers in the order in which they were set. -/
  timers : List Timer := []
  callers : List (Caller α ρ) := []
  /-- The id of the next caller. -/
  next : Nat := 0
  ready : List Task := []
  /-- The exchanges whose watch has yielded, the latest one last. -/
  yielded : List Nat := []
  /-- All reports so far. -/
  reports : List (Report ρ) := []
  /-- Signals are handled only on request. -/
  manual : Bool := false

namespace Switchboard

/-- A switchboard whose exchanges keep `cap` messages. -/
def start (cap : Nat) (manual : Bool) : Switchboard α ρ :=
  { correlator := { cap := cap }, manual := manual }

/-- Make a task ready, unless it is. -/
def enqueue (s : Switchboard α ρ) (t : Task) : Switchboard α ρ :=
  { s with ready := if t ∈ s.ready then s.ready else s.ready ++ [t] }

/-- Take signals in. -/
def hear (s : Switchboard α ρ) (signals : List Signal) : Switchboard α ρ :=
  if signals.isEmpty then s
  else
    let s := { s with inbox := s.inbox ++ signals }
    if s.manual then s else s.enqueue .signals

/-- Set a timer. -/
def arm (s : Switchboard α ρ) (duration : Nat) (alarm : Alarm) : Switchboard α ρ :=
  { s with timers := s.timers ++ [⟨s.now + duration, alarm⟩] }

/-- Take back all timers of a caller. -/
def disarm (s : Switchboard α ρ) (caller : Nat) : Switchboard α ρ :=
  { s with timers := s.timers.filter (·.alarm.caller? != some caller) }

/-- Register an exchange, and set a watch over it. -/
def register (s : Switchboard α ρ) (matcher : Matcher α) (timeout : Nat) : Switchboard α ρ :=
  { s with correlator := s.correlator.register s.now matcher timeout }.enqueue
    (.watch s.correlator.next)

/-- Wake the callers that a condition holds of, in the order in which they came. -/
def wakeWhere (s : Switchboard α ρ) (p : Caller α ρ → Bool) : Switchboard α ρ :=
  (s.callers.filter p).foldl (fun s c => s.enqueue (.caller c.id)) s

/-- Wake the callers who wait for the connection. -/
def wakeOpening (s : Switchboard α ρ) : Switchboard α ρ :=
  s.wakeWhere (·.stage = .opening)

/-- Wake the caller who waits for the end of an exchange. -/
def wakeWaiting (s : Switchboard α ρ) (exchange : Nat) : Switchboard α ρ :=
  s.wakeWhere fun c => c.stage = .waiting && c.goal.exchange? = some exchange

/-- Give up an attempt to connect. -/
def abandon (s : Switchboard α ρ) (generation : Nat) : Switchboard α ρ :=
  let link := s.link.abandon generation
  if link = s.link then s else { s with link := link }.wakeOpening

/-- Put a caller in the place of the one of its id, or at the end. -/
def putCaller (c : Caller α ρ) : List (Caller α ρ) → List (Caller α ρ)
  | [] => [c]
  | d :: rest => if d.id = c.id then c :: rest else d :: putCaller c rest

/-- Note how far a caller has come. -/
def keep (s : Switchboard α ρ) (c : Caller α ρ) : Switchboard α ρ :=
  { s with callers := putCaller c s.callers }

/-- The caller of an id. -/
def caller? (s : Switchboard α ρ) (id : Nat) : Option (Caller α ρ) :=
  s.callers.find? (·.id == id)

/-- Let a caller go. -/
def dismiss (s : Switchboard α ρ) (id : Nat) : Switchboard α ρ :=
  { s.disarm id with callers := s.callers.filter (·.id != id) }

/-- A caller reports and goes. -/
def finish (s : Switchboard α ρ) (id : Nat) (label : String) (r : ρ) : Switchboard α ρ :=
  { s.dismiss id with reports := s.reports ++ [⟨s.now, label, r⟩] }

/-- Send a frame over the link. -/
def transmit (s : Switchboard α ρ) (exchange : Option Nat) (frame : Json) :
    Except OperationError (Switchboard α ρ) :=
  if s.link.isOpen then do
    let (wire, signals) ← s.wire.send s.now exchange frame
    .ok ({ s with wire := wire }.hear signals)
  else .error (.connectionLost "not connected")

/-- Fail an exchange whose request could not be sent. -/
def failExchange (s : Switchboard α ρ) (id : Nat) : Switchboard α ρ :=
  { s with correlator := (s.correlator.fail s.now id .connectionLost).1 }

end Switchboard

end VenueLink

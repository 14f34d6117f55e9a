import VenueLink.Switchboard.Delivery

/-!
# What happens when

All that is ready happens before time passes (`settle`), in the order in which it became ready.
Who has yielded goes on when nothing else is ready, the latest first; so the watch over an
exchange, which yields once after its sleep, lets those go first who are awake with it at the
deadline, and whoever they wake. `advance` lets time pass from one instant to the next at which
a timer runs out.

A switchboard is `Quiet` when nothing is left to do at its instant.
-/

namespace VenueLink.Switchboard

open Exchange

/-- Offer a message to the open exchanges. -/
def dispatch (s : Switchboard α ρ) (message : Json) : Switchboard α ρ :=
  let (correlator, d) := s.correlator.dispatch s.now message
  let wire := { s.wire with pruned := s.wire.pruned ++ d.pruned }
  d.resolved.foldl wakeWaiting { s with correlator := correlator, wire := wire }

/-- Send the handshake over a connection that has just opened; it does not matter whether that
succeeds. -/
def greet (s : Switchboard α ρ) : Switchboard α ρ :=
  match s.link.handshake with
  | none => s
  | some handshake =>
    match s.wire.send s.now none handshake with
    | .ok (wire, signals) => { s with wire := wire }.hear signals
    | .error _ => s

/-- Fail every open exchange. -/
def failAll (s : Switchboard α ρ) : Switchboard α ρ :=
  s.correlator.pendingIds.foldl wakeWaiting
    { s with correlator := (s.correlator.failAll s.now .connectionLost).1 }

/-- Handle a signal. News of an earlier connection is passed over. -/
def handle (s : Switchboard α ρ) (signal : Signal) : Switchboard α ρ :=
  if signal.generation ≠ s.link.generation then s
  else match signal with
    | .opened g =>
      let s := s.greet
      { s with link := s.link.opened g }.wakeOpening
    | .message _ payload => s.dispatch payload
    | .closed g _ => { s with link := s.link.closed g }.wakeOpening.failAll

/-- Handle the signals that have been taken in. -/
def sift (s : Switchboard α ρ) : Switchboard α ρ :=
  s.inbox.foldl handle { s with inbox := [] }

/-- Handle signals until there are none: those that are there, then the replies to a handshake
that was sent on the way, which make no further signals. -/
def drain (s : Switchboard α ρ) : Switchboard α ρ :=
  let s := s.sift.sift
  { s with ready := s.ready.filter (· ≠ .signals) }

/-- How many signals `drain` handles. -/
def backlog (s : Switchboard α ρ) : Nat :=
  s.inbox.length + s.sift.inbox.length

/-- The watch over an exchange gets on: it sleeps until the deadline of the exchange, and yields
when that has come. Over an exchange that has ended there is no watch any more. -/
def getOn (s : Switchboard α ρ) (exchange : Nat) : Switchboard α ρ :=
  match s.correlator.pending? exchange with
  | none => s
  | some e =>
    if s.now < e.deadline then s.arm (e.deadline - s.now) (.watch exchange)
    else { s with yielded := s.yielded ++ [exchange] }

/-- Do what is ready. -/
def perform (s : Switchboard α ρ) : Task → Switchboard α ρ
  | .signals => s.drain
  | .caller id =>
    match s.caller? id with
    | some c => s.tend c
    | none => s
  | .announce g => s.hear [.opened g]
  | .watch exchange => s.getOn exchange
  | .expire id => { s with correlator := s.correlator.expire s.now id }.wakeWaiting id

/-- Nothing is left to do at the instant. -/
def Quiet (s : Switchboard α ρ) : Prop :=
  s.ready = [] ∧ s.yielded = []

/-- Those who have yielded are ready to go on, the latest first. -/
def resume (s : Switchboard α ρ) : Switchboard α ρ :=
  { s with ready := s.yielded.reverse.map .expire, yielded := [] }

/-- The next thing that happens at the instant: what became ready first, or else that those who
have yielded go on. -/
def next? (s : Switchboard α ρ) : Option (Switchboard α ρ) :=
  match s.ready with
  | t :: rest => some ({ s with ready := rest }.perform t)
  | [] => if s.yielded = [] then none else some s.resume

/-- More things than can happen at one instant. -/
def effort (s : Switchboard α ρ) : Nat :=
  let replies := (s.wire.responders.flatMap Responder.replies).length
  let exchanges := s.callers.foldl (fun n c => n + c.remaining) 0
  let present := s.inbox.length + s.ready.length + s.yielded.length
  (present + exchanges + 1) * (3 * replies + 4) * (s.callers.length + 4)

/-- Let at most `n` things happen. -/
def happen : Nat → Switchboard α ρ → Switchboard α ρ
  | 0, s => s
  | n + 1, s =>
    match s.next? with
    | some s => happen n s
    | none => s

/-- Let everything happen that happens at the instant. -/
def settle (s : Switchboard α ρ) : Switchboard α ρ :=
  happen s.effort s

/-- The pause of a caller at a stage is over. -/
def ripened : Stage → Stage
  | .connecting generation _ => .connecting generation true
  | .settling _ => .settling true
  | stage => stage

/-- Change what is known of a caller, and wake it. -/
def rouse (s : Switchboard α ρ) (id : Nat) (f : Caller α ρ → Caller α ρ) : Switchboard α ρ :=
  let callers := s.callers.map fun c => if c.id = id then f c else c
  { s with callers := callers }.enqueue (.caller id)

/-- A timer runs out. -/
def sound (s : Switchboard α ρ) : Alarm → Switchboard α ρ
  | .ripen caller => s.rouse caller fun c => { c with stage := ripened c.stage }
  | .giveUp caller => s.rouse caller fun c => { c with late := true }
  | .announce g => s.enqueue (.announce g)
  | .watch exchange => s.enqueue (.watch exchange)

/-- The timers whose instant has come run out, in the order in which they were set. -/
def ring (s : Switchboard α ρ) : Switchboard α ρ :=
  ((s.timers.filter (·.due ≤ s.now)).map Timer.alarm).foldl sound
    { s with timers := s.timers.filter (s.now < ·.due) }

/-- The next instant up to `limit` at which a timer runs out. -/
def nextInstant? (s : Switchboard α ρ) (limit : Nat) : Option Nat :=
  ((s.timers.map Timer.due).filter (· ≤ limit)).min?

/-- Go through at most `n` instants up to `limit`. -/
def elapse (limit : Nat) : Nat → Switchboard α ρ → Switchboard α ρ
  | 0, s => s
  | n + 1, s =>
    match s.nextInstant? limit with
    | some instant => elapse limit n { s with now := max s.now instant }.ring.settle
    | none => s

/-- Let time pass; no timer outlives its instant. -/
def advance (s : Switchboard α ρ) (duration : Nat) : Switchboard α ρ :=
  let limit := s.now + duration
  { elapse limit (duration + 1) s with now := limit }.ring

end VenueLink.Switchboard

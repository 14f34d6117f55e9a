import VenueLink.Switchboard.Schedule

/-!
# Steps of a switchboard

All that can be done to a switchboard from outside. After each step everything that is ready has
happened, so the states between steps are quiet.
-/

namespace VenueLink.Switchboard

open Exchange

/-- What can be done to a switchboard from outside. -/
inductive Step (α ρ : Type) where
  /-- Something happens on the side of the venue. -/
  | wire (c : Wire.Control)
  | setHandshake (handshake : Option Json)
  /-- A caller starts on a plan. -/
  | launch (label : String) (n : Nat) (plan : Plan α ρ n)
  /-- A caller asks for an open connection. -/
  | ensureOpen (label : String) (tell : Except OperationError Readiness → ρ)
  /-- A caller waits for a message. -/
  | listen (label : String) (matcher : Matcher α) (timeout : Nat) (tell : Resolution α → ρ)
  /-- A caller who asks for an open connection goes away. -/
  | cancel (label : String)
  /-- Send a frame. -/
  | transmit (frame : Json)
  /-- Handle the signals that have been taken in. -/
  | pump
  /-- Handle a signal. -/
  | signal (s : Signal)
  | advance (duration : Nat)

/-- What a step answers. -/
inductive Reply where
  | done
  | transmitted (outcome : Except OperationError Unit)
  /-- How many signals were handled. -/
  | handled (count : Nat)

/-- What a step does by itself. -/
def act (s : Switchboard α ρ) : Step α ρ → Switchboard α ρ × Reply
  | .wire c =>
    let (wire, signals) := s.wire.control c
    ({ s with wire := wire }.hear signals, .done)
  | .setHandshake handshake =>
      ({ s with link := { s.link with handshake := handshake } }, .done)
  | .launch label _ plan => (s.launch label plan, .done)
  | .ensureOpen label tell => (s.ensureOpen label tell, .done)
  | .listen label matcher timeout tell => (s.listen label matcher timeout tell, .done)
  | .cancel label => (s.cancel label, .done)
  | .transmit frame =>
    match s.transmit none frame with
    | .ok s => (s, .transmitted (.ok ()))
    | .error e => (s, .transmitted (.error e))
  | .pump => (s.drain, .handled s.backlog)
  | .signal signal => (s.handle signal, .done)
  | .advance duration => (s.advance duration, .done)

/-- Take a step, and let everything happen that follows from it at once. -/
def step (s : Switchboard α ρ) (step : Step α ρ) : Switchboard α ρ × Reply :=
  let (s, reply) := s.act step
  (s.settle, reply)

/-- Take several steps. -/
def run (s : Switchboard α ρ) (steps : List (Step α ρ)) : Switchboard α ρ :=
  steps.foldl (fun s t => (s.step t).1) s

end VenueLink.Switchboard

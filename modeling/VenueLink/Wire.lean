import VenueLink.Error
import VenueLink.Link.Signal

/-!
# A scripted wire

A wire to a venue that lives in memory. It can be told to refuse connections, to stall the next
one, to take its time between connecting and being open, and to answer what is sent by rules.
What the wire has to tell is a list of signals, each with the generation of the connection that
it belongs to.
-/

namespace VenueLink

/-- A rule of the venue: every frame that fits gets the replies. -/
structure Responder where
  wanted : Json
  replies : List Json

/-- A frame that went over the wire. -/
structure Sent where
  frame : Json
  time : Nat
  /-- The connection that it went over. -/
  generation : Nat
  /-- The exchange whose request it is, if any. -/
  exchange : Option Nat

/-- A wire to a venue that lives in memory. -/
structure Wire where
  /-- The generation of the latest connection, if there was one. -/
  connection : Option Nat := none
  isOpen : Bool := false
  /-- How many connections were attempted. -/
  connects : Nat := 0
  refuses : Bool := false
  /-- How long the next attempt hangs before it goes on. -/
  stall : Option Nat := none
  /-- The time between connecting and being open. -/
  openDelay : Nat := 0
  sent : List Sent := []
  /-- The messages that were handed back as consumed. -/
  pruned : List Json := []
  responders : List Responder := []

namespace Wire

/-- An attempt to connect starts. -/
def attempt (w : Wire) : Wire :=
  { w with connects := w.connects + 1, stall := none }

/-- An attempt to connect goes through, or is refused. -/
def connect (w : Wire) (generation : Nat) : Except OperationError Wire :=
  if w.refuses then .error (.transport "simulated connect failure")
  else .ok { w with connection := some generation, isOpen := true }

/-- The replies that a frame gets. -/
def replies (w : Wire) (frame : Json) : List Json :=
  (w.responders.filter fun r => Json.fits r.wanted frame).flatMap Responder.replies

/-- A message from the venue; before the first connection nobody hears it. -/
def deliver (w : Wire) (message : Json) : List Signal :=
  w.connection.toList.map (Signal.message · message)

/-- Send a frame at an instant; the replies come back at once. -/
def send (w : Wire) (now : Nat) (exchange : Option Nat) (frame : Json) :
    Except OperationError (Wire × List Signal) :=
  if w.isOpen then
    .ok ({ w with sent := w.sent ++ [⟨frame, now, w.connection.getD 0, exchange⟩] },
      (w.replies frame).flatMap w.deliver)
  else .error (.connectionLost "simulated transport closed")

/-- What can be done to a wire from outside. -/
inductive Control where
  /-- The venue sends a message. -/
  | push (message : Json)
  /-- The connection breaks. -/
  | close (reason : String)
  /-- Refuse connections from now on, or no longer. -/
  | refuse (on : Bool)
  /-- Let the next attempt hang. -/
  | stall (duration : Nat)
  /-- Take a time between connecting and being open. -/
  | openDelay (duration : Nat)
  | respond (r : Responder)

/-- Do something to a wire. -/
def control (w : Wire) : Control → Wire × List Signal
  | .push message => (w, w.deliver message)
  | .close reason =>
      ({ w with isOpen := false }, w.connection.toList.map (Signal.closed · reason))
  | .refuse on => ({ w with refuses := on }, [])
  | .stall duration => ({ w with stall := some duration }, [])
  | .openDelay duration => ({ w with openDelay := duration }, [])
  | .respond r => ({ w with responders := w.responders ++ [r] }, [])

end Wire

end VenueLink

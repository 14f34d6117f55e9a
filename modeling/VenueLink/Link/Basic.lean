import VenueLink.Json.Basic
import VenueLink.Link.Phase

/-!
# The link

What is known of the one connection to the venue: its phase, the generation of the latest
attempt to open it, and the handshake that is sent as soon as it is open. News of a connection
carries the generation of that connection; news of an earlier one is passed over.
-/

namespace VenueLink

/-- What is known of the connection. -/
structure Link where
  phase : Link.Phase := .closed
  /-- How often an attempt to connect was started. -/
  generation : Nat := 0
  handshake : Option Json := none
deriving DecidableEq

namespace Link

/-- Requests can be sent. -/
def isOpen (l : Link) : Bool :=
  l.phase = .opened

/-- An attempt to connect starts. -/
def attempt (l : Link) : Link :=
  { l with phase := .connecting, generation := l.generation + 1 }

/-- The attempt of a generation is given up before it came to anything. -/
def abandon (l : Link) (generation : Nat) : Link :=
  if generation = l.generation ∧ l.phase = .connecting then { l with phase := .closed } else l

/-- The connection of a generation is open. -/
def opened (l : Link) (generation : Nat) : Link :=
  if generation = l.generation then { l with phase := .opened } else l

/-- The connection of a generation is closed. -/
def closed (l : Link) (generation : Nat) : Link :=
  if generation = l.generation then { l with phase := .closed } else l

end Link

end VenueLink

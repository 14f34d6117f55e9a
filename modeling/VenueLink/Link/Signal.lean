import VenueLink.Json.Basic

/-!
# Signals

What a connection tells while it lives: that it is open, each message, and in the end that it is
closed. Every signal carries the generation of its connection.
-/

namespace VenueLink

/-- What a connection tells. -/
inductive Signal where
  | opened (generation : Nat)
  | message (generation : Nat) (payload : Json)
  | closed (generation : Nat) (reason : String)
deriving DecidableEq

namespace Signal

/-- The connection that the signal belongs to. -/
def generation : Signal → Nat
  | opened g => g
  | message g _ => g
  | closed g _ => g

end Signal

end VenueLink

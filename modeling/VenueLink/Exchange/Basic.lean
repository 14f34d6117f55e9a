import VenueLink.Json.Basic

/-!
# Exchanges

An exchange sends one request to the venue and waits for the message that answers it. Since
messages carry no reference to a request, a `Matcher` says which message is taken for the
answer, which for a refusal, and whether later exchanges may take the same message too. An
exchange ends with a `Resolution`, which carries every message that was seen while it was open.
-/

namespace VenueLink.Exchange

/-- Why an exchange failed. -/
inductive Cause where
  /-- No answer came before the deadline. -/
  | timeout
  /-- The connection closed, or could not be used. -/
  | connectionLost
  /-- The venue refused. -/
  | rejected
deriving DecidableEq

/-- The name of a cause. -/
def Cause.name : Cause → String
  | timeout => "Timeout"
  | connectionLost => "ConnectionLost"
  | rejected => "Rejected"

/-- An answered exchange: what was read from the answer, the answer, and the messages seen. -/
structure Matched (α : Type) where
  value : α
  raw : Json
  transcript : List Json
deriving DecidableEq

/-- A failed exchange and the messages seen. -/
structure Failure where
  cause : Cause
  transcript : List Json
deriving DecidableEq

/-- How an exchange ended. -/
inductive Resolution (α : Type) where
  | matched (m : Matched α)
  | failed (f : Failure)
deriving DecidableEq

namespace Resolution

/-- The messages seen while the exchange was open. -/
def transcript : Resolution α → List Json
  | matched m => m.transcript
  | failed f => f.transcript

/-- What was read from the answer, if there was one. -/
def value? : Resolution α → Option α
  | matched m => some m.value
  | failed _ => none

/-- The phase in which the exchange ended. A refusal is an answer, just not a successful one. -/
def phaseName : Resolution α → String
  | matched _ => "Resolved"
  | failed f => match f.cause with
    | .timeout => "TimedOut"
    | .connectionLost => "ConnectionLost"
    | .rejected => "Resolved"

end Resolution

/-- What an exchange makes of a message. -/
inductive Verdict where
  /-- It is the answer. -/
  | accept
  /-- It is a refusal. -/
  | refuse
  /-- It is something else. -/
  | pass
deriving DecidableEq

/-- How an exchange recognises and reads its answer. -/
structure Matcher (α : Type) where
  accepts : Json → Bool
  answer : Json → α
  rejects : Json → Bool := fun _ => false
  /-- Later exchanges may take the same message for their answer. -/
  shared : Bool := false
  /-- The messages seen are handed to the connection once the answer is there. -/
  prunes : Bool := false

namespace Matcher

/-- What an exchange makes of a message; a message that it accepts is never a refusal. -/
def verdict (m : Matcher α) (message : Json) : Verdict :=
  if m.accepts message then .accept
  else if m.rejects message then .refuse
  else .pass

/-- No later exchange sees a message of this verdict. -/
def stops (m : Matcher α) (message : Json) : Bool :=
  match m.verdict message with
  | .accept => !m.shared
  | .refuse => true
  | .pass => false

end Matcher

/-- An exchange to be run: the request, how its answer is recognised, how long it may take, and
how long to wait between the handshake and the request, in milliseconds. -/
structure Spec (α : Type) where
  request : Json
  matcher : Matcher α
  timeout : Nat
  settle : Nat

end VenueLink.Exchange

import VenueLink.Exchange.Basic

/-!
# The correlator

The registry of open exchanges and the outcomes of those that have ended. A message is offered
to the open exchanges in the order in which they were registered, up to the first one that takes
it for itself or sees a refusal in it. Every open exchange keeps the last messages that it saw,
at most `cap` of them.

An exchange ends once: `assign` keeps the first outcome. The views of a correlator are
`pendingIds`, `outcome?` and `deadline?`.
-/

namespace VenueLink.Exchange

/-- An open exchange. -/
structure Entry (α : Type) where
  id : Nat
  matcher : Matcher α
  /-- The last messages seen, the earliest in front. -/
  transcript : List Json
  deadline : Nat

namespace Entry

/-- Keep one more message; beyond `cap` messages the earliest is dropped. -/
def record (cap : Nat) (message : Json) (e : Entry α) : Entry α :=
  if cap = 0 then e
  else if e.transcript.length < cap then { e with transcript := e.transcript ++ [message] }
  else { e with transcript := e.transcript.tail ++ [message] }

/-- How the exchange ends with a message, unless it passes on it. -/
def decide? (e : Entry α) (message : Json) : Option (Resolution α) :=
  match e.matcher.verdict message with
  | .accept => some (.matched ⟨e.matcher.answer message, message, e.transcript⟩)
  | .refuse => some (.failed ⟨.rejected, e.transcript⟩)
  | .pass => none

/-- The failure of the exchange for a cause. -/
def failure (e : Entry α) (cause : Cause) : Resolution α :=
  .failed ⟨cause, e.transcript⟩

/-- What the exchange hands to the connection once a message has answered it. -/
def pruned (e : Entry α) (message : Json) : List Json :=
  if e.matcher.prunes && e.matcher.verdict message = .accept then e.transcript else []

end Entry

/-- An ended exchange: how it ended, and when. -/
structure Outcome (α : Type) where
  id : Nat
  time : Nat
  resolution : Resolution α
deriving DecidableEq

/-- The open exchanges in the order of registration, and the outcomes of the ended ones. -/
structure Correlator (α : Type) where
  cap : Nat
  entries : List (Entry α) := []
  outcomes : List (Outcome α) := []
  /-- The deadlines of all exchanges so far, by id. -/
  deadlines : List Nat := []

/-- What a message did: the exchanges that it ended, in order, and the messages to hand to the
connection. -/
structure Dispatched where
  resolved : List Nat
  pruned : List Json

/-- Offer a message to exchanges in order: those that stay open, and those that it ends. -/
def sweep (message : Json) : List (Entry α) → List (Entry α) × List (Entry α × Resolution α)
  | [] => ([], [])
  | e :: rest =>
    match e.decide? message with
    | none =>
      let (kept, ended) := sweep message rest
      (e :: kept, ended)
    | some r =>
      if e.matcher.stops message then (rest, [(e, r)])
      else
        let (kept, ended) := sweep message rest
        (kept, (e, r) :: ended)

namespace Correlator

/-- The id of the next exchange. -/
def next (c : Correlator α) : Nat :=
  c.deadlines.length

/-- The deadline of an exchange, open or ended. -/
def deadline? (c : Correlator α) (id : Nat) : Option Nat :=
  c.deadlines[id]?

/-- The ids of the open exchanges in the order of registration. -/
def pendingIds (c : Correlator α) : List Nat :=
  c.entries.map Entry.id

/-- How an exchange ended, and when. -/
def outcome? (c : Correlator α) (id : Nat) : Option (Outcome α) :=
  c.outcomes.find? (·.id == id)

/-- The open exchange of an id. -/
def pending? (c : Correlator α) (id : Nat) : Option (Entry α) :=
  c.entries.find? (·.id == id)

/-- Give an exchange its outcome, unless it has one. -/
def assign (now : Nat) (c : Correlator α) (id : Nat) (r : Resolution α) : Correlator α :=
  if (c.outcome? id).isSome then c
  else { c with outcomes := c.outcomes ++ [⟨id, now, r⟩] }

/-- Give several exchanges their outcomes, in order. -/
def assignAll (now : Nat) (c : Correlator α) (ended : List (Entry α × Resolution α)) :
    Correlator α :=
  ended.foldl (fun c (e, r) => c.assign now e.id r) c

/-- Take an exchange out of the registry. -/
def withdraw (c : Correlator α) (id : Nat) : Correlator α :=
  { c with entries := c.entries.filter (·.id != id) }

/-- Register an exchange that may take `timeout` milliseconds. -/
def register (now : Nat) (c : Correlator α) (m : Matcher α) (timeout : Nat) : Correlator α :=
  { c with
    entries := c.entries ++ [⟨c.next, m, [], now + timeout⟩]
    deadlines := c.deadlines ++ [now + timeout] }

/-- Offer a message to the open exchanges. -/
def dispatch (now : Nat) (c : Correlator α) (message : Json) : Correlator α × Dispatched :=
  let (kept, ended) := sweep message (c.entries.map (Entry.record c.cap message))
  ({ c with entries := kept }.assignAll now ended,
    ⟨ended.map (·.1.id), ended.flatMap fun (e, _) => e.pruned message⟩)

/-- End an exchange from outside; true if this was what ended it. -/
def resolve (now : Nat) (c : Correlator α) (id : Nat) (r : Resolution α) :
    Correlator α × Bool :=
  ((c.withdraw id).assign now id r, (c.outcome? id).isNone)

/-- Fail an open exchange; true if it was open. -/
def fail (now : Nat) (c : Correlator α) (id : Nat) (cause : Cause) : Correlator α × Bool :=
  match c.pending? id with
  | some e => ((c.withdraw id).assign now id (e.failure cause), true)
  | none => (c, false)

/-- Fail every open exchange, and count them. -/
def failAll (now : Nat) (c : Correlator α) (cause : Cause) : Correlator α × Nat :=
  ({ c with entries := [] }.assignAll now (c.entries.map fun e => (e, e.failure cause)),
    c.entries.length)

/-- Let an exchange run into its deadline. -/
def expire (now : Nat) (c : Correlator α) (id : Nat) : Correlator α :=
  (c.fail now id .timeout).1

/-- The open exchanges whose deadline is not later than `limit`, the earliest deadline in front;
exchanges of one deadline keep the order of registration. -/
def due (limit : Nat) (c : Correlator α) : List (Entry α) :=
  (c.entries.filter (·.deadline ≤ limit)).mergeSort fun a b => a.deadline ≤ b.deadline

/-- Let every exchange whose deadline is not later than `limit` run into its deadline. -/
def elapse (limit : Nat) (c : Correlator α) : Correlator α :=
  (c.due limit).foldl (fun c e => c.expire e.deadline e.id) c

end Correlator

end VenueLink.Exchange

import VenueLink.Exchange.Correlator

/-!
# Correlators over time

A `Timeline` is a correlator with a clock, in milliseconds, and the handles that callers hold on
their exchanges. Callers know an exchange by a name; a name that is given again belongs to the
newer exchange. Only `advance` and `wait` let time pass, and exchanges run into their deadlines
as it does; one that may take no time at all does so at the end of the step that registers it.

`Timeline.step` takes one step and says what the caller learns from it, `Timeline.run` takes
several.
-/

namespace VenueLink.Exchange

/-- A correlator with a clock and the handles of its callers. -/
structure Timeline (α : Type) where
  now : Nat := 0
  correlator : Correlator α
  /-- Every name that was given, with its exchange; the latest in front. -/
  names : List (String × Nat) := []
  /-- The handles that are held. -/
  handles : List (String × Nat) := []

namespace Timeline

/-- One step of a caller. -/
inductive Step (α : Type) where
  /-- Register an exchange under a name and hold its handle. -/
  | register (name : String) (matcher : Matcher α) (timeout : Nat)
  | dispatch (message : Json)
  /-- End an exchange whose handle is held. -/
  | resolve (name : String) (resolution : Resolution α)
  | fail (name : String) (cause : Cause)
  | failAll (cause : Cause)
  /-- Let time pass. -/
  | advance (duration : Nat)
  /-- Let a handle go. -/
  | drop (name : String)
  /-- Wait until an exchange has ended, and let its handle go. -/
  | wait (name : String)

/-- What a caller learns from a step. -/
inductive Reply (α : Type) where
  | done
  | dispatched (resolved : List String) (pruned : List Json)
  | decided (did : Bool)
  | count (n : Nat)
  | ended (resolution : Resolution α)
  /-- No handle of the name is held. -/
  | noHandle
  /-- The name was never given. -/
  | noExchange

/-- The timeline at its start. -/
def start (cap : Nat) : Timeline α :=
  { correlator := { cap := cap } }

/-- The name of an exchange. -/
def nameOf (t : Timeline α) (id : Nat) : String :=
  ((t.names.find? (·.2 == id)).map Prod.fst).getD ""

/-- The timeline without the handle of a name. -/
def release (t : Timeline α) (name : String) : Timeline α :=
  { t with handles := t.handles.filter (·.1 != name) }

/-- Let time pass up to a later instant. -/
def elapse (t : Timeline α) (instant : Nat) : Timeline α :=
  { t with now := max t.now instant, correlator := t.correlator.elapse instant }

/-- The names of the held handles whose exchange has ended, in order. -/
def resolvedNames (t : Timeline α) : List String :=
  ((t.handles.filter fun h => (t.correlator.outcome? h.2).isSome).map Prod.fst).mergeSort

/-- Wait until an exchange has ended, which is at its deadline unless it has ended before. -/
def awaitEnd (t : Timeline α) (id : Nat) : Timeline α :=
  match t.correlator.pending? id with
  | some e => t.elapse e.deadline
  | none => t

/-- What a step does by itself. -/
def act (t : Timeline α) : Step α → Timeline α × Reply α
  | .register name matcher timeout =>
    let id := t.correlator.next
    ({ t.release name with
        correlator := t.correlator.register t.now matcher timeout
        names := (name, id) :: t.names
        handles := (name, id) :: (t.release name).handles }, .done)
  | .dispatch message =>
    let (c, d) := t.correlator.dispatch t.now message
    ({ t with correlator := c }, .dispatched (d.resolved.map t.nameOf) d.pruned)
  | .resolve name r =>
    match t.handles.lookup name with
    | none => (t, .noHandle)
    | some id =>
      let (c, did) := t.correlator.resolve t.now id r
      ({ t with correlator := c }, .decided did)
  | .fail name cause =>
    match t.names.lookup name with
    | none => (t, .noExchange)
    | some id =>
      let (c, did) := t.correlator.fail t.now id cause
      ({ t with correlator := c }, .decided did)
  | .failAll cause =>
    let (c, n) := t.correlator.failAll t.now cause
    ({ t with correlator := c }, .count n)
  | .advance duration => (t.elapse (t.now + duration), .done)
  | .drop name => (t.release name, .decided (t.handles.lookup name).isSome)
  | .wait name =>
    match t.handles.lookup name with
    | none => (t, .noHandle)
    | some id =>
      let t := t.awaitEnd id
      (t.release name, match t.correlator.outcome? id with
        | some o => .ended o.resolution
        | none => .noHandle)

/-- Take a step, after which no open exchange is past its deadline. -/
def step (t : Timeline α) (s : Step α) : Timeline α × Reply α :=
  let (t, reply) := t.act s
  (t.elapse t.now, reply)

/-- Take several steps. -/
def run (t : Timeline α) (steps : List (Step α)) : Timeline α :=
  steps.foldl (fun t s => (t.step s).1) t

end Timeline

end VenueLink.Exchange

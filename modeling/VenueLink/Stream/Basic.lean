import VenueLink.Document.Reading
import VenueLink.Error
import VenueLink.Link.Signal
import VenueLink.Text.Utf8

/-!
# Streams

Connections to the streaming endpoint of the venue. Each connection has a reader that passes on
every frame that is JSON and skips every other one, until its stream ends. A new connection
takes the place of the earlier one: what is sent goes to the latest connection, and the end of
an earlier one no longer matters for whether the stream is open.

A connection is made in several steps, its reader starts some time after them and comes to its
end in several steps, and so goes what is sent. All of this may be at work at once, and each
step of one falls anywhere between the steps of the others. `connect`, `receive` and `send` are
such steps with nothing in between.
-/

namespace VenueLink

/-- What comes in on a connection. -/
inductive Incoming where
  | text (content : String)
  | binary (content : List Nat)
  /-- A frame without content for the reader. -/
  | control
  /-- The venue closes the connection and may give a reason. -/
  | close (reason : Option String)
  | failure (detail : String)
  /-- There is nothing more. -/
  | finished
deriving DecidableEq

namespace Incoming

/-- The JSON in a frame. -/
def payload? : Incoming → Option Json
  | text content => (readText Reading.json content).toOption
  | binary content =>
    (Text.Utf8.decodeAll? content).bind fun cs =>
      (readText Reading.json (String.ofList cs)).toOption
  | _ => none

/-- Why the connection ends, if it ends with this. -/
def ending? : Incoming → Option String
  | close reason => some (reason.getD "closed by venue")
  | failure detail => some ("read error: " ++ detail)
  | finished => some "stream ended"
  | _ => none

/-- The connection breaks off without being closed. -/
def reset : Incoming :=
  failure "WebSocket protocol error: Connection reset without closing handshake"

end Incoming

/-- A message that was sent, and the connection that it went over. -/
structure Dispatched where
  generation : Nat
  message : Json
deriving DecidableEq

/-- How far a connection has come that is being made. -/
inductive Dialling where
  /-- Its writer is in its place. -/
  | placed
  /-- Its generation is the current one, too. -/
  | current
  /-- And the stream is marked as open. -/
  | marked
deriving DecidableEq

/-- How far a reader has come. -/
inductive Post where
  | reading
  /-- Its connection has come to an end. -/
  | ended (reason : String)
  /-- It has found that its generation counts for the mark, and will clear that. -/
  | clearing (reason : String)
  /-- It is done with the mark, and will tell of the end. -/
  | telling (reason : String)
  | gone
deriving DecidableEq

/-- The connections of a stream. -/
structure Streams where
  /-- The generation of the connection whose writer is in its place, if there was one. -/
  writer : Option Nat := none
  /-- The generation that counts for the mark. -/
  current : Nat := 0
  isOpen : Bool := false
  /-- The connection that is being made. -/
  underway : Option (Nat × Dialling) := none
  /-- The connections whose readers have not started yet. -/
  spawned : List Nat := []
  /-- The connections whose readers have started, and how far these have come. -/
  posts : List (Nat × Post) := []
  /-- The connections whose writers have given up. -/
  stopped : List Nat := []
  /-- The messages that are to be sent, each with the connection whose writer has been taken
  hold of. -/
  held : List Dispatched := []
  /-- Those of them whose senders have then found the stream open. -/
  allowed : List Dispatched := []
  /-- All signals so far. -/
  signals : List Signal := []
  /-- All messages that were sent. -/
  sent : List Dispatched := []
deriving DecidableEq

namespace Streams

/-- The generation of the latest connection, if there was one. -/
def latest (s : Streams) : Option Nat :=
  s.writer

/-- How far the reader of a connection has come, if it has started. -/
def post? (s : Streams) (generation : Nat) : Option Post :=
  s.posts.lookup generation

/-- The connections whose readers are at work, the latest one first. -/
def readers (s : Streams) : List Nat :=
  (s.posts.filter (·.2 = .reading)).map Prod.fst

/-! ### Making a connection -/

/-- The making of a connection begins: its writer takes the place of the earlier one. -/
def dial (s : Streams) (generation : Nat) : Streams :=
  { s with writer := some generation, underway := some (generation, .placed) }

/-- The making of a connection goes on by one step. -/
def proceed (s : Streams) : Streams :=
  match s.underway with
  | none => s
  | some (generation, .placed) =>
    { s with current := generation, underway := some (generation, .current) }
  | some (generation, .current) =>
    { s with isOpen := true, underway := some (generation, .marked) }
  | some (generation, .marked) =>
    { s with spawned := generation :: s.spawned, underway := none }

/-! ### Readers -/

/-- A reader gets on. -/
def post (s : Streams) (generation : Nat) (p : Post) : Streams :=
  { s with posts := (generation, p) :: s.posts.filter (·.1 ≠ generation) }

/-- More is told. -/
def tell (s : Streams) (told : List Signal) : Streams :=
  { s with signals := s.signals ++ told }

/-- The reader of a connection starts. -/
def start (s : Streams) (generation : Nat) : Streams :=
  ({ s with spawned := s.spawned.erase generation }.post generation .reading).tell
    [.opened generation]

/-- A connection is made and its reader starts, with nothing in between. -/
def connect (s : Streams) (generation : Nat) : Streams :=
  (s.dial generation).proceed.proceed.proceed.start generation

/-- The reader of a connection takes what has come in; after its end nobody reads. -/
def take (s : Streams) (generation : Nat) (i : Incoming) : Streams :=
  if s.post? generation = some .reading then
    match i.ending? with
    | some reason => s.post generation (.ended reason)
    | none => s.tell (i.payload?.toList.map (.message generation))
  else s

/-- A reader whose connection has come to an end goes on by one step: it looks which generation
counts for the mark, clears the mark if that is its own one, and tells of the end. -/
def leave (s : Streams) (generation : Nat) : Streams :=
  match s.post? generation with
  | some (.ended reason) =>
    s.post generation (if s.current = generation then .clearing reason else .telling reason)
  | some (.clearing reason) => { s with isOpen := false }.post generation (.telling reason)
  | some (.telling reason) => (s.post generation .gone).tell [.closed generation reason]
  | _ => s

/-- The reader of a connection takes what has come in and goes on to its end, if that was the
end, with nothing in between. -/
def receive (s : Streams) (generation : Nat) (i : Incoming) : Streams :=
  (((s.take generation i).leave generation).leave generation).leave generation

/-! ### Sending -/

/-- The connection whose writer is taken hold of. -/
def hold (s : Streams) : Except OperationError Nat :=
  match s.writer with
  | some generation => .ok generation
  | none => .error (.connectionLost "WebSocket not connected")

/-- The look at the mark. -/
def look (s : Streams) : Except OperationError Unit :=
  if s.isOpen then .ok () else .error (.connectionLost "WebSocket not connected")

/-- A message is handed over to a writer. -/
def hand (s : Streams) (d : Dispatched) : Except OperationError Streams :=
  if d.generation ∈ s.stopped then .error (.connectionLost "WebSocket writer stopped")
  else .ok { s with sent := s.sent ++ [d] }

/-- Send a message, with nothing in between. -/
def send (s : Streams) (message : Json) : Except OperationError Streams := do
  let generation ← s.hold
  s.look
  s.hand ⟨generation, message⟩

/-! ### Steps -/

/-- What can happen to streams. -/
inductive Step where
  | dial (generation : Nat)
  | proceed
  | start (generation : Nat)
  | take (generation : Nat) (i : Incoming)
  | leave (generation : Nat)
  /-- Somebody who sends a message takes hold of the writer. -/
  | hold (message : Json)
  | look (d : Dispatched)
  | hand (d : Dispatched)
  /-- The writer of a connection gives up. -/
  | stop (generation : Nat)
deriving DecidableEq

/-- Take a step. -/
def step (s : Streams) : Step → Streams
  | .dial generation => s.dial generation
  | .proceed => s.proceed
  | .start generation => s.start generation
  | .take generation i => s.take generation i
  | .leave generation => s.leave generation
  | .hold message =>
    match s.hold with
    | .ok generation => { s with held := ⟨generation, message⟩ :: s.held }
    | .error _ => s
  | .look d =>
    if d ∈ s.held then
      match s.look with
      | .ok () => { s with held := s.held.erase d, allowed := d :: s.allowed }
      | .error _ => { s with held := s.held.erase d }
    else s
  | .hand d =>
    if d ∈ s.allowed then
      let s := { s with allowed := s.allowed.erase d }
      (s.hand d).toOption.getD s
    else s
  | .stop generation => { s with stopped := generation :: s.stopped }

/-- Take several steps. -/
def run (s : Streams) (steps : List Step) : Streams :=
  steps.foldl step s

end Streams

end VenueLink

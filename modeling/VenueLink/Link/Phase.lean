import VenueLink.Document.Reading

/-!
# Phases of a connection
-/

namespace VenueLink.Link

/-- Where a connection is in its life. -/
inductive Phase where
  | closed
  | connecting
  | opened
deriving DecidableEq

namespace Phase

/-- The name of a phase. -/
def name : Phase → String
  | closed => "closed"
  | connecting => "connecting"
  | opened => "open"

/-- The phase of a name. -/
def ofName? : String → Option Phase
  | "closed" => some closed
  | "connecting" => some connecting
  | "open" => some opened
  | _ => none

/-- A phase by its name. -/
def reading : Reading Phase :=
  Reading.choice ofName?

end Phase

end VenueLink.Link

/-!
# Errors

What can go wrong while an operation runs, by cause. `OperationError.message` gives the wording;
an error of the store keeps its own wording.
-/

namespace VenueLink

/-- An error of the store of orders and results. -/
inductive StorageError where
  /-- The store could not be reached or refused. -/
  | database (detail : String)
  /-- A stored value could not be understood. -/
  | serialization (detail : String)
deriving DecidableEq

/-- The wording of a store error. -/
def StorageError.message : StorageError → String
  | database detail => "Database error: " ++ detail
  | serialization detail => "Serialization error: " ++ detail

/-- An error of an operation. -/
inductive OperationError where
  /-- The caller asked for something that makes no sense. -/
  | client (detail : String)
  /-- There is no session with the venue. -/
  | session (detail : String)
  /-- The connection could not be opened or written to. -/
  | connectionLost (detail : String)
  /-- The connection attempt itself failed. -/
  | transport (detail : String)
  /-- A request over HTTP failed. -/
  | http (detail : String)
  /-- The store failed. -/
  | storage (error : StorageError)
deriving DecidableEq

/-- The wording of an error. -/
def OperationError.message : OperationError → String
  | client detail => "Bad request: " ++ detail
  | session detail => "No authenticated session: " ++ detail
  | connectionLost detail => "Connection lost: " ++ detail
  | transport detail => "Transport error: " ++ detail
  | http detail => "HTTP error: " ++ detail
  | storage error => error.message

end VenueLink

import VenueLink.Calendar.Date
import VenueLink.Document.Reading

/-!
# Daily results

How many orders an account won, lost and tied on a day. `groupByAccount` arranges results by
account, each group from the newest day to the oldest; rows of one day keep their order.
-/

namespace VenueLink

/-- The counts of one day. -/
structure Tally where
  win : Nat
  loss : Nat
  tie : Nat
  maxConsecutiveWin : Nat
  maxConsecutiveLoss : Nat
  consecutiveWin : Nat
  consecutiveLoss : Nat
deriving DecidableEq

/-- The counts of an account on a day. -/
structure DailyResult where
  date : Date
  account : String
  tally : Tally
deriving DecidableEq

/-- One row of a listing of one account. -/
structure ResultRow where
  date : Date
  tally : Tally
deriving DecidableEq

namespace DailyResult

/-- The result without its account. -/
def row (r : DailyResult) : ResultRow :=
  ⟨r.date, r.tally⟩

/-- A result from its fields in the order in which an array lists them. -/
def ofFields (date : Date) (account : String) (win loss tie maxConsecutiveWin maxConsecutiveLoss
    consecutiveWin consecutiveLoss : Nat) : DailyResult :=
  ⟨date, account, ⟨win, loss, tie, maxConsecutiveWin, maxConsecutiveLoss, consecutiveWin,
    consecutiveLoss⟩⟩

open Fields in
/-- The fields of a result; counts that are absent are zero. -/
def fields : Fields DailyResult :=
  ofFields <$> field "date" (Reading.stringWith Date.ofText?)
    <*> field "account" Reading.string
    <*> fieldOr "win" Reading.nat32 0
    <*> fieldOr "loss" Reading.nat32 0
    <*> fieldOr "tie" Reading.nat32 0
    <*> fieldOr "maxConsecutiveWin" Reading.nat32 0
    <*> fieldOr "maxConsecutiveLoss" Reading.nat32 0
    <*> fieldOr "consecutiveWin" Reading.nat32 0
    <*> fieldOr "consecutiveLoss" Reading.nat32 0

/-- A result as JSON. -/
def toJson (r : DailyResult) : Json :=
  .object [("account", .string r.account),
    ("consecutiveLoss", .integer r.tally.consecutiveLoss),
    ("consecutiveWin", .integer r.tally.consecutiveWin),
    ("date", .string r.date.text),
    ("loss", .integer r.tally.loss),
    ("maxConsecutiveLoss", .integer r.tally.maxConsecutiveLoss),
    ("maxConsecutiveWin", .integer r.tally.maxConsecutiveWin),
    ("tie", .integer r.tally.tie),
    ("win", .integer r.tally.win)]

end DailyResult

namespace ResultRow

/-- A row from its fields in the order in which an array lists them. -/
def ofFields (date : Date) (win loss tie maxConsecutiveWin maxConsecutiveLoss consecutiveWin
    consecutiveLoss : Nat) : ResultRow :=
  ⟨date, ⟨win, loss, tie, maxConsecutiveWin, maxConsecutiveLoss, consecutiveWin,
    consecutiveLoss⟩⟩

open Fields in
/-- The fields of a row. -/
def fields : Fields ResultRow :=
  ofFields <$> field "date" (Reading.stringWith Date.ofText?)
    <*> field "win" Reading.nat32
    <*> field "loss" Reading.nat32
    <*> field "tie" Reading.nat32
    <*> field "maxConsecutiveWin" Reading.nat32
    <*> field "maxConsecutiveLoss" Reading.nat32
    <*> field "consecutiveWin" Reading.nat32
    <*> field "consecutiveLoss" Reading.nat32

/-- A row as JSON. -/
def toJson (r : ResultRow) : Json :=
  .object [("consecutiveLoss", .integer r.tally.consecutiveLoss),
    ("consecutiveWin", .integer r.tally.consecutiveWin),
    ("date", .string r.date.text),
    ("loss", .integer r.tally.loss),
    ("maxConsecutiveLoss", .integer r.tally.maxConsecutiveLoss),
    ("maxConsecutiveWin", .integer r.tally.maxConsecutiveWin),
    ("tie", .integer r.tally.tie),
    ("win", .integer r.tally.win)]

end ResultRow

namespace DailyResult

/-- Add a row to the group of an account; groups stand in increasing order of their accounts. -/
def addRow (account : String) (row : ResultRow) :
    List (String × List ResultRow) → List (String × List ResultRow)
  | [] => [(account, [row])]
  | (a, rows) :: rest =>
    if account = a then (a, rows ++ [row]) :: rest
    else if account < a then (account, [row]) :: (a, rows) :: rest
    else (a, rows) :: addRow account row rest

/-- The row is not older than the other. -/
def notOlder (a b : ResultRow) : Bool :=
  !a.date.before b.date

/-- The results by account, each group from the newest day to the oldest. -/
def groupByAccount (results : List DailyResult) : List (String × List ResultRow) :=
  (results.foldl (fun groups r => addRow r.account r.row groups) []).map fun (account, rows) =>
    (account, rows.mergeSort notOlder)

/-- Groups as JSON. -/
def groupsJson (groups : List (String × List ResultRow)) : Json :=
  .object (groups.map fun (account, rows) => (account, .array (rows.map ResultRow.toJson)))

end DailyResult

end VenueLink

import VenueLink.DailyResult

/-!
# The table of daily results

One result is kept for each account and day; a later one replaces an earlier one.
`ResultTable.list` returns the results that a caller asks for, by account and, within an
account, from the newest day to the oldest.
-/

namespace VenueLink

/-- What is kept of daily results: at most one for each account and day. -/
structure ResultTable where
  rows : List DailyResult := []

namespace ResultTable

/-- The two results are of one account and one day. -/
def sameKey (a b : DailyResult) : Bool :=
  a.date = b.date && a.account = b.account

/-- Put a result in the place of an earlier one of its account and day, or at the end. -/
def put (result : DailyResult) : List DailyResult → List DailyResult
  | [] => [result]
  | r :: rest => if sameKey r result then result :: rest else r :: put result rest

/-- Keep a result for its account and day. -/
def upsert (table : ResultTable) (result : DailyResult) : ResultTable :=
  ⟨put result table.rows⟩

/-- The result is of the account and of the day that a caller names; none stands for any. -/
def isWanted (account : Option String) (date : Option Date) (r : DailyResult) : Bool :=
  account.all (· = r.account) && date.all (· = r.date)

/-- The order of a listing: by account, then from the newest day to the oldest. -/
def listedBefore (a b : DailyResult) : Bool :=
  a.account < b.account || (a.account = b.account && !a.date.before b.date)

/-- The results of an account and a day. -/
def list (table : ResultTable) (account : Option String) (date : Option Date) :
    List DailyResult :=
  (table.rows.filter (isWanted account date)).mergeSort listedBefore

end ResultTable

end VenueLink

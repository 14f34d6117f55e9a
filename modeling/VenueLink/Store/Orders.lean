import VenueLink.Order.Record

/-!
# The order log

Orders are kept in the order in which they were saved. `OrderLog.newestFirst` lists them from
the newest to the oldest; records of the same instant keep the order in which they were saved.
-/

namespace VenueLink

/-- The orders that have been saved, the first one in front. -/
structure OrderLog where
  records : List Order.Record := []

namespace OrderLog

/-- Keep one more order. -/
def save (log : OrderLog) (record : Order.Record) : OrderLog :=
  ⟨log.records ++ [record]⟩

/-- A record is not older than another. -/
def notOlder (a b : Order.Record) : Bool :=
  a.createdAt.order b.createdAt != .lt

/-- All orders from the newest to the oldest. -/
def newestFirst (log : OrderLog) : List Order.Record :=
  log.records.mergeSort notOlder

/-- A record is saved after the others. -/
@[simp]
theorem records_save (log : OrderLog) (record : Order.Record) :
    (log.save record).records = log.records ++ [record] :=
  rfl

end OrderLog

end VenueLink

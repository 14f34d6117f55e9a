import VenueLink.Store.Orders
import VenueLink.Store.Results

/-!
# The store in memory

Orders and daily results side by side, for running without a database. `MemoryStore.serve` does
what a caller asks for and says what the caller gets; only saving an order and writing a result
change anything.
-/

namespace VenueLink

/-- What is kept in memory. -/
structure MemoryStore where
  orders : OrderLog := {}
  results : ResultTable := {}

namespace MemoryStore

/-- What can be asked of a store. -/
inductive Request where
  | saveOrder (record : Order.Record)
  | listOrders
  | upsertResult (result : DailyResult)
  /-- The results of an account and a day; none stands for any. -/
  | listResults (account : Option String) (date : Option Date)

/-- What a caller gets. -/
inductive Answer where
  | saved
  | orders (records : List Order.Record)
  | result (result : DailyResult)
  | results (rows : List DailyResult)

/-- Do what is asked for. -/
def serve (s : MemoryStore) : Request → MemoryStore × Answer
  | .saveOrder record => ({ s with orders := s.orders.save record }, .saved)
  | .listOrders => (s, .orders s.orders.newestFirst)
  | .upsertResult result => ({ s with results := s.results.upsert result }, .result result)
  | .listResults account date => (s, .results (s.results.list account date))

/-- The store after several requests. -/
def after (s : MemoryStore) (requests : List Request) : MemoryStore :=
  requests.foldl (fun s request => (s.serve request).1) s

end MemoryStore

end VenueLink

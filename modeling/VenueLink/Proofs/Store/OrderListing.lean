import VenueLink.Proofs.Store.Sorting
import VenueLink.Store.Memory

/-!
# Listings of orders

The orders in memory are those that were saved, in that order (`records_after`): no other
request touches them. A listing sorts them by the instant of their creation, the newest first,
and orders of one instant stay as they were saved. So an order that is saved next comes into the
listing behind all that are not older.

## Main results

* `Timestamp.order_eq_lt_iff`: the order of instants.
* `OrderLog.ranks_notOlder`, `OrderLog.newestFirst_save`: sorting orders, and one order more.
* `MemoryStore.records_after`: the orders after any requests.
* `MemoryStore.listing_has_saved_orders`: the listing after any requests, and what a further one
  changes.
-/

namespace VenueLink

namespace Timestamp

/-- Instants are compared by their dates, the seconds and the fractions of a second, in that
order. -/
theorem order_eq_lt_iff {a b : Timestamp} : a.order b = .lt ↔
    a.date.year < b.date.year ∨ a.date.year = b.date.year ∧
      (a.date.month < b.date.month ∨ a.date.month = b.date.month ∧
        (a.date.day < b.date.day ∨ a.date.day = b.date.day ∧
          (a.second < b.second ∨ a.second = b.second ∧ a.nanos < b.nanos))) := by
  simp only [order, Date.order, Ordering.then_eq_lt, Ordering.then_eq_eq, compare_lt_iff_lt,
    compare_eq_iff_eq]
  tauto

/-- No time is earlier than itself. -/
theorem order_self (a : Timestamp) : a.order a ≠ .lt := by
  rw [Ne, order_eq_lt_iff]
  omega

/-- Not being earlier is transitive. -/
theorem not_lt_trans {a b c : Timestamp} (hab : a.order b ≠ .lt) (hbc : b.order c ≠ .lt) :
    a.order c ≠ .lt := by
  rw [Ne, order_eq_lt_iff] at *
  omega

/-- One of two times is not earlier than the other. -/
theorem not_lt_total (a b : Timestamp) : a.order b ≠ .lt ∨ b.order a ≠ .lt := by
  rw [Ne, Ne, order_eq_lt_iff, order_eq_lt_iff]
  omega

end Timestamp

namespace OrderLog

/-- A record is not older when its time is not earlier. -/
theorem notOlder_iff {a b : Order.Record} :
    notOlder a b = true ↔ a.createdAt.order b.createdAt ≠ .lt :=
  bne_iff_ne

/-- Orders can be sorted by the instant of their creation. -/
theorem ranks_notOlder : Ranks notOlder where
  trans a b c hab hbc := by
    rw [notOlder_iff] at *
    exact Timestamp.not_lt_trans hab hbc
  total a b := by
    rw [Bool.or_eq_true, notOlder_iff, notOlder_iff]
    exact Timestamp.not_lt_total a.createdAt b.createdAt

/-- Orders of one instant are listed as they were saved. -/
theorem filter_newestFirst (log : OrderLog) (instant : Timestamp) :
    log.newestFirst.filter (·.createdAt = instant) =
      log.records.filter (·.createdAt = instant) := by
  refine ranks_notOlder.filter_mergeSort log.records fun a b ha hb => ?_
  rw [decide_eq_true_eq] at ha hb
  rw [notOlder_iff, ha, hb]
  exact Timestamp.order_self instant

/-- An order comes into the listing behind all that are not older than it. -/
theorem newestFirst_save (log : OrderLog) (record : Order.Record) :
    ∃ newer older, log.newestFirst = newer ++ older ∧
      (log.save record).newestFirst = newer ++ record :: older ∧
      (∀ r ∈ newer, r.createdAt.order record.createdAt ≠ .lt) ∧
      ∀ r ∈ older, r.createdAt.order record.createdAt = .lt := by
  obtain ⟨newer, older, hbefore, hafter, hnewer, holder⟩ :=
    ranks_notOlder.mergeSort_concat log.records record
  refine ⟨newer, older, hbefore, hafter, fun r hr => notOlder_iff.mp (hnewer r hr),
    fun r hr => ?_⟩
  simpa [notOlder] using holder r hr

end OrderLog

namespace MemoryStore

/-- The order that a request saves, if it does. -/
def Request.saved? : Request → Option Order.Record
  | .saveOrder record => some record
  | _ => none

/-- The orders that several requests save. -/
def saves (requests : List Request) : List Order.Record :=
  requests.filterMap Request.saved?

/-- A request touches the orders only to save one more. -/
theorem records_serve (s : MemoryStore) (request : Request) :
    (s.serve request).1.orders.records = s.orders.records ++ request.saved?.toList := by
  cases request with
  | saveOrder record => rfl
  | listOrders => exact (List.append_nil _).symm
  | upsertResult result => exact (List.append_nil _).symm
  | listResults account date => exact (List.append_nil _).symm

/-- The orders are those that were saved, in that order. -/
theorem records_after (s : MemoryStore) (requests : List Request) :
    (s.after requests).orders.records = s.orders.records ++ saves requests := by
  induction requests generalizing s with
  | nil => exact (List.append_nil _).symm
  | cons request rest ih =>
    refine (ih (s.serve request).1).trans ?_
    rw [records_serve, List.append_assoc, saves, saves]
    cases request <;> rfl

/-- **Listings have the saved orders.** After any requests to an empty store:

* a listing changes nothing and gives the orders that were saved, all of them and no others and
  as they were saved, from the newest to the oldest, and those of one instant in the order in
  which they were saved;
* further requests that save nothing leave the listing as it is;
* a further order that is saved comes in at one place: the orders above it are not older, the
  ones below it are older, and nothing else changes. -/
theorem listing_has_saved_orders (requests : List Request) :
    let s := ({} : MemoryStore).after requests
    let saved := saves requests
    let listing := s.orders.newestFirst
    s.serve .listOrders = (s, .orders listing) ∧
    listing.Perm saved ∧
    (listing.Pairwise fun r r' => r.createdAt.order r'.createdAt ≠ .lt) ∧
    (∀ instant, listing.filter (·.createdAt = instant) = saved.filter (·.createdAt = instant)) ∧
    (∀ more, saves more = [] → (s.after more).orders.newestFirst = listing) ∧
    ∀ record, ∃ newer older, listing = newer ++ older ∧
      (s.serve (.saveOrder record)).1.orders.newestFirst = newer ++ record :: older ∧
      (∀ r ∈ newer, r.createdAt.order record.createdAt ≠ .lt) ∧
      ∀ r ∈ older, r.createdAt.order record.createdAt = .lt := by
  intro s saved listing
  have hrecords : s.orders.records = saved := records_after {} requests
  refine ⟨rfl, ?_, ?_, fun instant => ?_, fun more hmore => ?_, fun record => ?_⟩
  · exact hrecords ▸ List.mergeSort_perm s.orders.records OrderLog.notOlder
  · exact (OrderLog.ranks_notOlder.pairwise_mergeSort _).imp OrderLog.notOlder_iff.mp
  · exact hrecords ▸ s.orders.filter_newestFirst instant
  · rw [OrderLog.newestFirst, records_after, hmore, List.append_nil]
    rfl
  · exact s.orders.newestFirst_save record

end MemoryStore

end VenueLink

import VenueLink.Proofs.Broker.Run
import VenueLink.Proofs.Switchboard.Progress

/-!
# What placing an order leads to

A placement that is reported as successful was acknowledged: while the exchange of its order was
open, a message with an order id came in. Nothing ties that message to the order, not even that
the order had been sent by then.

## Main results

* `leads_placement`: a placement reports an error, or what the exchange of its order came to.
* `acknowledged_of_success`: what a successful placement rests on, and when its order had been
  sent before the acknowledgement.
* `unsent_order_succeeds`: an order whose acknowledgement came first, and that was never sent.
-/

namespace VenueLink

open Exchange Exchange.Plan Switchboard

variable {ρ : Type}

namespace Call

/-- The exchange that places an order for an instrument. -/
def placeSpec (limits : Limits) (profile : Profile) (request : Order.Request)
    (side : Order.Side) (instrumentId : String) : Spec Answer :=
  spec (placementOf profile request side instrumentId).frame
    (Answer.toPlacement (draftOf profile request side instrumentId)) limits.placeOrder

/-- An exchange places an order for a request. -/
def Places (limits : Limits) (request : Order.Request) (spec : Spec Answer) : Prop :=
  ∃ profile side instrumentId, spec = placeSpec limits profile request side instrumentId

/-- The request for an order is never nothing. -/
theorem Places.request_ne_null {limits : Limits} {request : Order.Request} {spec : Spec Answer}
    (h : Places limits request spec) : spec.request ≠ .null := by
  obtain ⟨profile, side, instrumentId, rfl⟩ := h
  intro hnull
  cases hnull

/-- The matcher of a placement reads the order id of the message it accepts. -/
theorem Places.answer {limits : Limits} {request : Order.Request} {spec : Spec Answer}
    (h : Places limits request spec) {raw : Json} (ha : spec.matcher.accepts raw = true) :
    ∃ k kept, Order.idIn? raw = some k ∧ spec.matcher.answer raw = .order k kept := by
  obtain ⟨profile, side, instrumentId, rfl⟩ := h
  obtain ⟨k, hk⟩ := Option.isSome_iff_exists.mp ha
  refine ⟨k, (draftOf profile request side instrumentId).details k raw, hk, ?_⟩
  change Answer.order ((Order.idIn? raw).getD 0) (Order.Draft.details _ _ raw) = _
  rw [hk, Option.getD_some]

variable {ends : Spec Answer → Resolution Answer → Prop} {m : Nat}

/-- A placement answers what its only exchange comes to. -/
theorem leads_placePlan {limits : Limits} {profile : Profile} {request : Order.Request}
    {side : Order.Side} {instrumentId : String} {x : CallResult}
    (h : Leads ends (placePlan limits profile request side instrumentId)
      (.report x : Plan Answer CallResult m)) :
    ∃ r, ends (placeSpec limits profile request side instrumentId) r ∧
      x = .ok (.placement (placementReport r)) := by
  obtain ⟨r, hends, hrest⟩ := h.uncons
  exact ⟨r, hends, (eq_of_leads_report hrest).symm⟩

/-- A placement reports an error, or what the exchange of its order came to. -/
theorem leads_placementPlan {limits : Limits} {profile : Profile} {request : Order.Request}
    {side : Order.Side} {x : CallResult}
    (h : Leads ends (placementPlan limits profile request side).2
      (.report x : Plan Answer CallResult m)) :
    (∃ e, x = .error e) ∨ ∃ spec r, Places limits request spec ∧ ends spec r ∧
      x = .ok (.placement (placementReport r)) := by
  rw [placementPlan] at h
  cases hticker : request.tickerToResolve with
  | none =>
    rw [hticker] at h
    obtain ⟨r, hends, rfl⟩ := leads_placePlan h
    exact .inr ⟨_, r, ⟨profile, side, _, rfl⟩, hends, rfl⟩
  | some ticker =>
    rw [hticker] at h
    obtain ⟨r₀, -, hrest⟩ := h.uncons
    cases hfound : foundIn r₀ with
    | none =>
      simp only [hfound] at hrest
      exact .inl ⟨_, (eq_of_leads_report hrest).symm⟩
    | some id =>
      simp only [hfound] at hrest
      obtain ⟨r, hends, rfl⟩ := leads_placePlan hrest
      exact .inr ⟨_, r, ⟨profile, side, _, rfl⟩, hends, rfl⟩

end Call

namespace Broker

/-- A call for a placement is refused at once, or it follows the plan of a placement. -/
theorem prepare_placement (b : Broker ρ) (request : Order.Request) :
    (∃ b' e, b.prepare (.placement request) = (b', ⟨0, .report (.error e)⟩)) ∨
      ∃ b' profile side, b.prepare (.placement request) =
        (b', Call.placementPlan b.config.limits profile request side) := by
  rw [prepare]
  cases request.resolvedSide with
  | error e => exact .inl ⟨b, e, rfl⟩
  | ok side =>
    dsimp only
    split
    · exact .inl ⟨b, _, rfl⟩
    · cases b.session.refusal with
      | some e => exact .inl ⟨b, _, rfl⟩
      | none => exact .inr ⟨b.syncHandshake, _, side, rfl⟩

/-- What a call for a placement reports is an error, or what the exchange of the order came to.
-/
theorem leads_placement {ends : Spec Answer → Resolution Answer → Prop} {m : Nat} {b : Broker ρ}
    {request : Order.Request} {x : CallResult}
    (h : Leads ends (b.prepare (.placement request)).2.2
      (.report x : Plan Answer CallResult m)) :
    (∃ e, x = .error e) ∨ ∃ spec r, Call.Places b.config.limits request spec ∧ ends spec r ∧
      x = .ok (.placement (Call.placementReport r)) := by
  rcases b.prepare_placement request with ⟨b', e, heq⟩ | ⟨b', profile, side, heq⟩
  · rw [heq] at h
    exact .inl ⟨e, (eq_of_leads_report h).symm⟩
  · rw [heq] at h
    exact Call.leads_placementPlan h

/-- An event acknowledges the order of an exchange: the exchange was open and its caller there,
and a message with an order id has answered it. -/
structure Acknowledges (s : Switchboard Answer ρ) (e : Event Answer ρ) (ex : Nat)
    (spec : Spec Answer) (report : PlacementReport) : Prop where
  pending : ex ∈ s.correlator.pendingIds
  caller : ∃ c ∈ s.callers, c.goal.errand? = some (ex, spec)
  answered : ∃ m k, (s.occur e).resolution? ex = some (.matched m) ∧
    Order.idIn? m.raw = some k ∧
    report = ⟨true, some k, some m.raw⟩

/-- The exchange of an order that is reported as placed was acknowledged by an event of the run.
-/
theorem acknowledges_of_ran {limits : Limits} {request : Order.Request} {spec : Spec Answer}
    (hp : Call.Places limits request spec) {s : Switchboard Answer ρ}
    {events : List (Event Answer ρ)} {k ex : Nat} {r : Resolution Answer}
    (hr : s.Ran events k ex spec r) (hsuccess : (Call.placementReport r).success = true) :
    ∃ before e later, events = before ++ e :: later ∧
      Acknowledges (s.after before) e ex spec (Call.placementReport r) := by
  cases r with
  | failed f => cases hsuccess
  | matched m =>
    obtain ⟨haccepts, hvalue⟩ := hr.read m rfl
    obtain ⟨id, kept, hid, hanswer⟩ := hp.answer haccepts
    obtain ⟨before, e, later, heq, hpending, hended, c, hc, -, he⟩ := hr.answered m rfl
    obtain ⟨value, raw, seen⟩ := m
    obtain rfl : value = .order id kept := hvalue.trans hanswer
    exact ⟨before, e, later, heq, hpending, ⟨c, hc, he⟩, _, id, hended, hid, rfl⟩

/-- A call for a placement that reports success was acknowledged. By then its order had been
sent exactly if its caller was not underway with it any more and had not given up at its
deadline. -/
theorem acknowledged_of_success {cap : Nat} {b : Broker ρ}
    (hb : (Switchboard.start cap false).Reaches b.board) (request : Order.Request)
    (label : String) (tell : CallResult → ρ) (later : List (Event Answer ρ)) :
    let s := (b.prepare (.placement request)).1.board
    let events :=
      .act (.launch label _ ((b.prepare (.placement request)).2.2.map tell)) :: later
    (∃ c ∈ (s.after events).callers, c.id = s.next) ∨
      ∃ result, s.Told events s.next label (tell result) ∧
        ∀ report, result = .ok (.placement report) → report.success = true →
          ∃ before e rest ex spec, events = before ++ e :: rest ∧
            Call.Places b.config.limits request spec ∧
            Acknowledges (s.after before) e ex spec report ∧
            (ex ∈ (s.after before).requests ↔ ¬(s.after before).InDelivery ex ∧
              ¬∃ xs e' ys, before = xs ++ e' :: ys ∧ (s.after xs).GivesUp e' ex) := by
  intro s events
  have h : s.Orderly := (hb.trans (b.reaches_prepare _).1).orderly (orderly_start cap false)
  rcases gotOn_launch h label ((b.prepare (.placement request)).2.2.map tell) later with
    ⟨c, hc, hid, -⟩ | ⟨x, m, htold, hleads⟩
  · exact .inl ⟨c, hc, hid⟩
  · obtain ⟨result, hresult, rfl⟩ := hleads.of_map
    refine .inr ⟨result, htold, fun report heq hsuccess => ?_⟩
    rcases leads_placement hresult with ⟨e, rfl⟩ | ⟨spec, r, hp, ⟨ex, hran⟩, rfl⟩
    · cases heq
    · obtain rfl : Call.placementReport r = report := by simpa using heq
      obtain ⟨before, e, rest, hevents, hack⟩ := acknowledges_of_ran hp hran hsuccess
      obtain ⟨c, hc, he⟩ := hack.caller
      exact ⟨before, e, rest, ex, spec, hevents, hp, hack,
        mem_requests_iff h hran.new hc he hp.request_ne_null hack.pending⟩

end Broker

namespace Service

open Broker

/-- A message with an order id, and nothing else. -/
def receipt : Json :=
  .object [("id", .integer 5)]

/-- What happens to an order whose acknowledgement comes in the pause after the handshake. -/
def earlyReceipt : List (Event Answer Delivered) :=
  [.next, .next, .next, .act (.wire (.push receipt)), .next, .tick 150, .next]

/-- Such a call reports, and what it reports rests on an acknowledgement. -/
theorem early_receipt_acknowledges :
    let b : Broker Delivered := .start {} loggedIn []
    let s := (b.prepare (.placement tenToBuy)).1.board
    let events := .act (.launch "a" _ ((b.prepare (.placement tenToBuy)).2.2.map .result)) ::
      earlyReceipt
    ∃ result, s.Told events s.next "a" (.result result) ∧
      ∀ report, result = .ok (.placement report) → report.success = true →
        ∃ before e rest ex spec, events = before ++ e :: rest ∧
          Call.Places b.config.limits tenToBuy spec ∧
          Acknowledges (s.after before) e ex spec report ∧
          (ex ∈ (s.after before).requests ↔ ¬(s.after before).InDelivery ex ∧
            ¬∃ xs e' ys, before = xs ++ e' :: ys ∧ (s.after xs).GivesUp e' ex) :=
  (acknowledged_of_success (reaches_service {} loggedIn [] []) tenToBuy "a" .result
    earlyReceipt).resolve_left (by decide +kernel)

/-- An order is reported as placed, under the id of the message, and never sent: the message
comes in the pause after the handshake, and the connection breaks before the end of the pause.
-/
theorem unsent_order_succeeds :
    let s := ordering [.wire (.push receipt), .wire (.close "reset"), .advance 150]
    s.board.requests = [] ∧ s.board.callers.length = 0 ∧
      s.placements = [⟨true, some 5, some receipt⟩] ∧
      s.orders.records.map (·.details.brokerOrderId) = [5] := by
  decide +kernel

end Service

end VenueLink

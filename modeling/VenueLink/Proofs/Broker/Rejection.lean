import VenueLink.Proofs.Broker.Placement
import VenueLink.Proofs.Switchboard.Offer

/-!
# Orders that the venue refuses

A message that refuses an order ends the exchange of the order, if that is the first one that
does not pass on it. It counts as a refusal only if it carries no order id: a refusal with an id
is taken for an acknowledgement, since acceptance is tested first.

## Main results

* `decide?_of_isRejection`: what the exchange of an order makes of a refusal.
* `refusal_of_placement`: what a refusal does to the call, to the exchange and to the saved
  orders.
* `refusal_with_id_is_acknowledgement`: an order that is refused, reported as placed, and saved.
-/

namespace VenueLink

open Exchange Switchboard

/-- What is kept of the orders that were acknowledged so far, apart from the order of an
exchange. -/
def Switchboard.keptBut {ρ : Type} (s : Switchboard Answer ρ) (ex : Nat) : List Order.Details :=
  (s.correlator.outcomes.filter (·.id ≠ ex)).filterMap fun o =>
    o.resolution.value?.bind Answer.kept?

/-- Nothing is kept of an order whose exchange has failed. -/
theorem Switchboard.keptBut_of_failed {ρ : Type} {s : Switchboard Answer ρ}
    (hs : s.correlator.Sound) {ex : Nat} {f : Failure}
    (hf : s.resolution? ex = some (.failed f)) : s.keptBut ex = s.kept := by
  rw [keptBut, kept, List.filterMap_filter]
  refine List.filterMap_congr fun o ho => ?_
  split
  · rfl
  · next hid =>
    have hid : o.id = ex := by simpa using hid
    obtain ⟨o', ho', hr⟩ := resolution?_eq_some_iff.mp hf
    have := hs.outcome?_of_mem ho
    rw [hid, ho'] at this
    obtain rfl := Option.some.inj this
    rw [hr]
    rfl

namespace Call

/-- What the exchange of an order makes of a message that refuses an order: only one without an
order id is a refusal to it. -/
theorem decide?_of_isRejection {limits : Limits} {request : Order.Request} {spec : Spec Answer}
    (hp : Places limits request spec) {e : Entry Answer} (he : e.matcher = spec.matcher)
    {m : Json} (hm : Order.isRejection m = true) :
    (Order.idIn? m = none → e.decide? m = some (.failed ⟨.rejected, e.transcript⟩)) ∧
      ∀ k, Order.idIn? m = some k →
        ∃ kept, e.decide? m = some (.matched ⟨.order k kept, m, e.transcript⟩) := by
  obtain ⟨profile, side, instrumentId, rfl⟩ := hp
  have hmatch : e.matcher = Answer.toPlacement (draftOf profile request side instrumentId) := he
  constructor
  · intro hnone
    have hv : e.matcher.verdict m = .refuse := by
      simp [hmatch, Matcher.verdict, Answer.toPlacement, hnone, hm]
    rw [Entry.decide?, hv]
  · intro k hk
    have hv : e.matcher.verdict m = .accept := by
      simp [hmatch, Matcher.verdict, Answer.toPlacement, hk]
    refine ⟨(draftOf profile request side instrumentId).details k m, ?_⟩
    rw [Entry.decide?, hv, hmatch]
    simp [Answer.toPlacement, hk]

end Call

namespace Service

variable {cap : Nat} {manual : Bool} {s : Switchboard Answer Delivered}

/-- A message that refuses an order reaches the open exchange of an order, after exchanges that
pass on it. Without an order id the message fails the exchange, the call reports that, and no
record is saved for the exchange. With an id the exchange is answered, and the call reports that
the order is placed. -/
theorem refusal_of_placement (hs : (Switchboard.start cap manual).Reaches s)
    {pre rest : List (Entry Answer)} {e : Entry Answer}
    (hentries : s.correlator.entries = pre ++ e :: rest)
    {c : Caller Answer Delivered} (hc : c ∈ s.callers) {limits : Limits}
    {request : Order.Request} {spec : Spec Answer} (hp : Call.Places limits request spec)
    {n : Nat} {tell : CallResult → Delivered}
    (hg : c.goal = .exchange e.id spec n fun r =>
      .report (tell (.ok (.placement (Call.placementReport r)))))
    {m : Json} (hm : Order.isRejection m = true)
    (hpass : ∀ d ∈ pre, d.matcher.verdict m = .pass) (later : List (Event Answer Delivered)) :
    let seen := (e.record s.correlator.cap m).transcript
    (Order.idIn? m = none →
      (s.dispatch m).resolution? e.id = some (.failed ⟨.rejected, seen⟩) ∧
      (s.dispatch m).TellsInTime later c e.id
        (tell (.ok (.placement ⟨false, none, some (.array seen)⟩))) ∧
      ∀ config session responders steps,
        (run (Broker.start config session responders) steps).board =
          (s.dispatch m).after later →
        ((run (Broker.start config session responders) steps).orders.records.map
          Order.Record.details).Sublist (((s.dispatch m).after later).keptBut e.id)) ∧
    ∀ k, Order.idIn? m = some k →
      (∃ kept, (s.dispatch m).resolution? e.id = some (.matched ⟨.order k kept, m, seen⟩)) ∧
      (s.dispatch m).TellsInTime later c e.id
        (tell (.ok (.placement ⟨true, some k, some m⟩))) := by
  intro seen
  have h := hs.orderly (orderly_start cap manual)
  have h' := (s.keeps_dispatch m h).1
  have he : c.goal.errand? = some (e.id, spec) := by rw [hg, Goal.errand?]
  have hmem : e ∈ s.correlator.entries :=
    hentries ▸ List.mem_append_right pre List.mem_cons_self
  have hmatch : (e.record s.correlator.cap m).matcher = spec.matcher := by
    rw [matcher_record]
    exact (h.fits hc he).known.matcher e hmem rfl
  -- whatever the exchange makes of the message, it ends with it, and the caller is told
  have hends : ∀ r, (e.record s.correlator.cap m).decide? m = some r →
      (s.dispatch m).correlator.outcome? e.id = some ⟨e.id, s.now, r⟩ ∧
      (s.dispatch m).TellsInTime later c e.id
        (tell (.ok (.placement (Call.placementReport r)))) :=
    fun r hr => tellsInTime_of_first h hentries hpass hr hc hg later
  obtain ⟨hrefused, hacknowledged⟩ := Call.decide?_of_isRejection hp hmatch hm
  constructor
  · intro hnone
    obtain ⟨ho, htells⟩ := hends _ (hrefused hnone)
    have hfailed : (s.dispatch m).resolution? e.id = some (.failed ⟨.rejected, seen⟩) :=
      resolution?_eq_some_iff.mpr ⟨_, ho, rfl⟩
    refine ⟨hfailed, htells, fun config session responders steps hboard => ?_⟩
    have hlast : ((s.dispatch m).after later).resolution? e.id =
        some (.failed ⟨.rejected, seen⟩) :=
      resolution?_eq_some_iff.mpr ⟨_, (h'.evolves later).outcome?_mono ho, rfl⟩
    rw [keptBut_of_failed (h'.after later).sound hlast, ← hboard]
    exact saved_sublist config session responders steps
  · intro k hk
    obtain ⟨kept, hdec⟩ := hacknowledged k hk
    obtain ⟨ho, htells⟩ := hends _ hdec
    exact ⟨⟨kept, resolution?_eq_some_iff.mpr ⟨_, ho, rfl⟩⟩, htells⟩

/-- A message that says of an order that it was refused, and names it. -/
def refusalOfFive : Json :=
  .object [("name", .string "order-placed-temp"), ("status", .integer 4000),
    ("msg", .object [("id", .integer 5)])]

/-- The exchange of the order that a service has placed. -/
def orderSpec : Spec Answer :=
  Call.placeSpec ({} : VenueConfig).limits ⟨193, false, 555⟩ tenToBuy .buy "1861"

/-- The caller who has sent that order, and waits. -/
def orderCaller : Caller Answer Delivered :=
  ⟨0, "a", .waiting, false, .exchange 0 orderSpec 0 fun r =>
    .report (.result (.ok (.placement (Call.placementReport r))))⟩

/-- Once the order is sent, a refusal without an id and one with an id are told apart. -/
theorem refusal_of_tenToBuy :
    Order.isRejection refusal = true ∧ Order.idIn? refusal = none ∧
    Order.isRejection refusalOfFive = true ∧ Order.idIn? refusalOfFive = some 5 ∧
    ((ordering [.advance 150]).board.dispatch refusal).TellsInTime [.next] orderCaller 0
      (.result (.ok (.placement ⟨false, none, some (.array [refusal])⟩))) ∧
    ((ordering [.advance 150]).board.dispatch refusalOfFive).TellsInTime [.next] orderCaller 0
      (.result (.ok (.placement ⟨true, some 5, some refusalOfFive⟩))) := by
  have hentries : (ordering [.advance 150]).board.correlator.entries =
      [] ++ ⟨0, orderSpec.matcher, [], 5000⟩ :: [] := by with_unfolding_all rfl
  have hcallers : (ordering [.advance 150]).board.callers = [orderCaller] := by
    with_unfolding_all rfl
  have hc : orderCaller ∈ (ordering [.advance 150]).board.callers :=
    hcallers ▸ List.mem_singleton.mpr rfl
  have hp : Call.Places ({} : VenueConfig).limits tenToBuy orderSpec := ⟨_, _, _, rfl⟩
  have hm : Order.isRejection refusal = true ∧ Order.idIn? refusal = none := by decide +kernel
  have hm' : Order.isRejection refusalOfFive = true ∧ Order.idIn? refusalOfFive = some 5 := by
    decide +kernel
  have hcap :
      (ordering [.advance 150]).board.correlator.cap = ({} : VenueConfig).transcriptCap := by
    decide +kernel
  have hnone := (refusal_of_placement (reaches_ordering _) hentries hc hp rfl hm.1
    (fun d hd => absurd hd List.not_mem_nil) [.next]).1 hm.2
  have hsome := (refusal_of_placement (reaches_ordering _) hentries hc hp rfl hm'.1
    (fun d hd => absurd hd List.not_mem_nil) [.next]).2 5 hm'.2
  rw [hcap] at hnone
  exact ⟨hm.1, hm.2, hm'.1, hm'.2, hnone.2.1, hsome.2⟩

/-- An order that the venue refuses with an id is reported as placed, and saved. -/
theorem refusal_with_id_is_acknowledgement :
    let s := ordering [.advance 150, .wire (.push refusalOfFive)]
    Order.isRejection refusalOfFive = true ∧ s.board.requests = [0] ∧
      s.placements = [⟨true, some 5, some refusalOfFive⟩] ∧
      s.orders.records.map (·.details.brokerOrderId) = [5] := by
  decide +kernel

end Service

end VenueLink

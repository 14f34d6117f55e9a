import VenueLink.Proofs.Broker.Course

/-!
# What is kept of an order

An order that is kept was acknowledged: a message with an order id answered the last exchange of
a call for a placement. What is kept of it and what was sent to the venue come from the same
request, profile, side and instrument, and so they agree; only the family of the instrument is
narrowed on its way to the venue and is kept as it was requested.

## Main results

* `exists_acknowledgement`: what is kept goes back to the event in which the order was
  acknowledged.
* `records_describe_orders`: each record agrees with the frame of its order, but for the family.
* `crypto_order_is_kept_as_such`: an order that is sent for one family and kept for another.
-/

namespace VenueLink

open Exchange Exchange.Plan Correlator Switchboard

variable {ρ : Type}

/-- An id that is read is not zero. -/
theorem Order.idIn?_ne_zero {raw : Json} {id : Int} (h : Order.idIn? raw = some id) :
    id ≠ 0 := by
  simpa using (Option.filter_eq_some_iff.mp h).2

/-- Orders are what is kept of answers. -/
theorem Answer.kept?_eq_some_iff {a : Answer} {d : Order.Details} :
    a.kept? = some d ↔ ∃ id, a = .order id d := by
  cases a <;> simp [kept?]

/-- What keeps an order is a message that was read as its acknowledgement. -/
theorem Exchange.Resolution.matched_of_kept {r : Resolution Answer} {d : Order.Details}
    (h : r.value?.bind Answer.kept? = some d) :
    ∃ m id, r = .matched m ∧ m.value = .order id d := by
  cases r with
  | failed f => cases h
  | matched m =>
    obtain ⟨id, hvalue⟩ := Answer.kept?_eq_some_iff.mp h
    exact ⟨m, id, rfl, hvalue⟩

namespace Broker

/-- What an exchange keeps of an order, if it acknowledges one. -/
def kept? (b : Broker ρ) (ex : Nat) : Option Order.Details :=
  (b.board.resolution? ex).bind fun r => r.value?.bind Answer.kept?

/-- At some time of a course the caller `k` has come to an exchange. -/
def Runs (b : Broker ρ) (deeds : List (Deed ρ)) (k ex : Nat) : Prop :=
  ∃ before, before <+: b.history deeds ∧
    ∃ c ∈ (b.board.after before).callers, c.id = k ∧ c.goal.exchange? = some ex

/-- In an event a message answers the exchange of an order, the last one of its caller. -/
structure Acknowledgement (s : Switchboard Answer ρ) (e : Event Answer ρ) (o : Outcome Answer)
    (m : Matched Answer) (c : Caller Answer ρ) (spec : Spec Answer) (request : Order.Request)
    (tell : CallResult → ρ) : Prop where
  here : c ∈ s.callers
  goal : ∃ n next, c.goal = .exchange o.id spec n next ∧ Orders request tell spec n next
  pending : o.id ∈ s.correlator.pendingIds
  ended : (s.occur e).correlator.outcome? o.id = some o
  matched : o.resolution = .matched m
  accepts : spec.matcher.accepts m.raw = true
  value_eq : m.value = spec.matcher.answer m.raw

/-- What is kept of an acknowledged order is drawn up from what its request was drawn up from.
-/
theorem Acknowledgement.details {s : Switchboard Answer ρ} {e : Event Answer ρ}
    {o : Outcome Answer} {m : Matched Answer} {c : Caller Answer ρ} {spec : Spec Answer}
    {request : Order.Request} {tell : CallResult → ρ}
    (h : Acknowledgement s e o m c spec request tell) :
    ∃ profile side instrumentId id,
      spec.request = (Call.placementOf profile request side instrumentId).frame.toJson ∧
      Order.idIn? m.raw = some id ∧
      m.value =
        .order id ((Call.draftOf profile request side instrumentId).details id m.raw) := by
  obtain ⟨n, next, -, ⟨limits, profile, side, instrumentId, rfl⟩, -⟩ := h.goal
  obtain ⟨id, hid⟩ := Option.isSome_iff_exists.mp h.accepts
  refine ⟨profile, side, instrumentId, id, rfl, hid, h.value_eq.trans ?_⟩
  change Answer.order ((Order.idIn? m.raw).getD 0) (Order.Draft.details _ _ m.raw) = _
  rw [hid, Option.getD_some]

section Course

variable {config : VenueConfig} {session : SessionScript} {responders : List Responder}
  {deeds : List (Deed ρ)}

/-- What is kept goes back to the event in which the order was acknowledged: the last exchange
of a call for a placement, which is at its line of the book. -/
theorem exists_acknowledgement {o : Outcome Answer}
    (ho : o ∈ ((start config session responders).course deeds).board.correlator.outcomes)
    {d : Order.Details} (hd : o.resolution.value?.bind Answer.kept? = some d) :
    ∃ before e later m c spec label request tell,
      (start config session responders).history deeds = before ++ e :: later ∧
      (start config session responders).Brought deeds c.id
        (.call label (.placement request) tell) ∧
      Acknowledgement ((start config session responders).board.after before) e o m c spec
        request tell := by
  have hord := orderly_board_start (ρ := ρ) config session responders
  rw [← after_history_course hord] at ho
  obtain ⟨m, id, hm, hvalue⟩ := Resolution.matched_of_kept hd
  obtain ⟨before, e, later, heq, hpending, hended⟩ :=
    decided_in_run hord (Nat.zero_le _) ((hord.after _).sound.outcome?_of_mem ho) hm
  obtain ⟨entry, hentry, hid⟩ := List.mem_map.mp hpending
  obtain ⟨c, hc, hex⟩ :=
    ((minded_board_start config session responders).after hord before).owned entry hentry
  obtain ⟨book, hbook, -⟩ := booked_course config session responders heq
  have hline := hbook.goals c hc
  cases hg : c.goal with
  | readiness tell =>
    rw [hg, Goal.exchange?] at hex
    cases hex
  | exchange ex spec n next =>
    rw [hg] at hline hex
    obtain rfl : ex = o.id := (Option.some.inj hex).trans hid
    obtain ⟨haccepts, hread⟩ := read_of_decided (hord.after before) hc hg hended hm
    obtain ⟨-, hhabit, -⟩ := hline
    -- an exchange that acknowledges nothing would have kept nothing
    rcases hhabit with hsilent | ⟨label, request, tell, hvisit, horders⟩
    · rw [hm, Resolution.value?, Option.bind_some, hread, hsilent.keeps] at hd
      cases hd
    · have hbrought := (brought_iff hord rfl rfl).mpr hvisit
      exact ⟨before, e, later, m, c, spec, label, request, tell, heq, hbrought, hc,
        ⟨n, next, hg, horders⟩, hpending, hended, hm, haccepts, hread⟩

/-- What an exchange has brought is kept with its outcome. -/
theorem kept?_eq_some_iff {b : Broker ρ} (ho : b.board.Orderly) {ex : Nat} {d : Order.Details} :
    b.kept? ex = some d ↔ ∃ o ∈ b.board.correlator.outcomes, o.id = ex ∧
      o.resolution.value?.bind Answer.kept? = some d := by
  rw [kept?, resolution?, Option.bind_map, Option.bind_eq_some_iff]
  constructor
  · rintro ⟨o, hout, hd⟩
    exact ⟨o, List.mem_of_find?_eq_some hout, id_of_outcome? hout, hd⟩
  · rintro ⟨o, hmem, rfl, hd⟩
    exact ⟨o, ho.sound.outcome?_of_mem hmem, hd⟩

/-- All orders that are kept were brought by exchanges. -/
theorem mem_kept_iff {b : Broker ρ} (ho : b.board.Orderly) {d : Order.Details} :
    d ∈ b.board.kept ↔ ∃ ex, b.kept? ex = some d := by
  rw [kept, List.mem_filterMap]
  constructor
  · rintro ⟨o, hmem, hd⟩
    exact ⟨o.id, (kept?_eq_some_iff ho).mpr ⟨o, hmem, rfl, hd⟩⟩
  · rintro ⟨ex, hd⟩
    obtain ⟨o, hmem, -, hd⟩ := (kept?_eq_some_iff ho).mp hd
    exact ⟨o, hmem, hd⟩

end Course

/-- What is kept of an order that a call for a placement ran agrees with what was sent of it, in
everything but the family of the instrument; the families agree exactly if it was one of those
that can be ordered. Such are the details of all records, and if the store accepts writes there
is a record of each order that is kept. -/
theorem records_describe_orders (config : VenueConfig) (session : SessionScript)
    (responders : List Responder) (deeds : List (Deed ρ)) :
    let b := (start config session responders).course deeds
    (∀ ex d, b.kept? ex = some d → ∃ k label request tell, ∃ placed : Order.Placement,
      (start config session responders).Brought deeds k
        (.call label (.placement request) tell) ∧
      (start config session responders).Runs deeds k ex ∧
      (∀ x ∈ b.board.wire.sent, x.exchange = some ex → x.frame = placed.frame.toJson) ∧
      d.userBalanceId = placed.userBalanceId ∧ d.instrumentId = placed.instrumentId ∧
      d.side = placed.side ∧ d.amount = placed.amount ∧
      (d.family = placed.family ↔
        request.family = .digitalOption ∨ request.family = .fxOption)) ∧
    (∀ record ∈ b.orders.records, ∃ ex, b.kept? ex = some record.details) ∧
    ((∀ failure, .stores (some failure) ∉ deeds) → ∀ ex d, b.kept? ex = some d →
      ∃ record ∈ b.orders.records, record.details = d) := by
  intro b
  have hord := orderly_board_start (ρ := ρ) config session responders
  have hb : b.board.Orderly := after_history_course hord deeds ▸ hord.after _
  refine ⟨fun ex d hd => ?_, fun record hrecord => ?_, fun hstores ex d hd => ?_⟩
  · obtain ⟨o, hmem, rfl, hkept⟩ := (kept?_eq_some_iff hb).mp hd
    obtain ⟨before, e, later, m, c, spec, label, request, tell, heq, hbrought, hack⟩ :=
      exists_acknowledgement hmem hkept
    obtain ⟨profile, side, instrumentId, id, hrequest, -, hvalue⟩ := hack.details
    obtain ⟨n, next, hg, -⟩ := hack.goal
    refine ⟨c.id, label, request, tell, Call.placementOf profile request side instrumentId,
      hbrought, ⟨before, ⟨_, heq.symm⟩, c, hack.here, rfl, by rw [hg, Goal.exchange?]⟩,
      fun x hx hex => ?_, ?_⟩
    · -- the book has one line for the exchange, when it is acknowledged and at the end
      obtain ⟨book, hbook, more, hfinal⟩ := booked_course config session responders heq
      have hline := hbook.goals c hack.here
      rw [hg] at hline
      rw [← heq, after_history_course hord] at hfinal
      obtain ⟨k, spec', hline', hframe⟩ := hfinal.frames x hx o.id hex
      rw [getElem?_append_of_eq_some hline.1] at hline'
      obtain ⟨-, rfl⟩ := Prod.mk.inj (Option.some.inj hline')
      rw [hframe, hrequest]
    · rw [hack.matched, Resolution.value?, Option.bind_some, hvalue] at hkept
      obtain rfl := Option.some.inj hkept
      refine ⟨rfl, rfl, rfl, rfl, ?_⟩
      change request.family = Call.orderedFamily request.family ↔ _
      cases request.family <;> simp [Call.orderedFamily]
  · have hsub := ((faithful_start config session responders).course deeds).orders
    exact (mem_kept_iff hb).mp (hsub.subset (List.mem_map_of_mem hrecord))
  · have hall :=
      (details_course hord (recorded_start config session responders) hstores).details_eq
    have hmem : d ∈ b.board.kept := (mem_kept_iff hb).mpr ⟨ex, hd⟩
    rw [← hall] at hmem
    obtain ⟨record, hrecord, heq⟩ := List.mem_map.mp hmem
    exact ⟨record, hrecord, heq⟩

end Broker

namespace Service

open Broker

/-- An order is placed and acknowledged. -/
def placing (request : Order.Request) : List (Deed CallResult) :=
  [.call "a" (.placement request) id, .advance 150, .wire (.push receipt)]

/-- The record of an order for a digital option says what was sent. -/
theorem order_to_buy_is_described :
    let b := (start {} loggedIn []).course (placing tenToBuy)
    ∃ record ∈ b.orders.records, ∃ x ∈ b.board.wire.sent, ∃ placed : Order.Placement,
      x.exchange = some 0 ∧ x.frame = placed.frame.toJson ∧
      record.details.userBalanceId = placed.userBalanceId ∧
      record.details.instrumentId = placed.instrumentId ∧ record.details.side = placed.side ∧
      record.details.amount = placed.amount ∧ record.details.family = placed.family := by
  intro b
  obtain ⟨d, hd⟩ : ∃ d, b.kept? 0 = some d :=
    Option.isSome_iff_exists.mp (by decide +kernel)
  obtain ⟨x, hx, hex⟩ : ∃ x ∈ b.board.wire.sent, x.exchange = some 0 := by
    have hsome : (b.board.wire.sent.find? (·.exchange = some 0)).isSome = true := by
      decide +kernel
    obtain ⟨x, hfind⟩ := Option.isSome_iff_exists.mp hsome
    exact ⟨x, List.mem_of_find?_eq_some hfind, by simpa using List.find?_some hfind⟩
  obtain ⟨hdescribe, -, hrecords⟩ := records_describe_orders {} loggedIn [] (placing tenToBuy)
  obtain ⟨record, hrecord, rfl⟩ := hrecords (by simp [placing]) 0 d hd
  obtain ⟨k, label, request, tell, placed, hbrought, -, hframes, hbalance, hinstrument, hside,
    hamount, hfamily⟩ := hdescribe 0 _ hd
  obtain ⟨xs, ys, hsplit, -⟩ := hbrought
  have hmem : Deed.call label (.placement request) tell ∈ placing tenToBuy :=
    hsplit ▸ List.mem_append_right _ List.mem_cons_self
  have hdigital : request.family = .digitalOption := by
    simp [placing] at hmem
    rw [hmem.2.1]
    rfl
  exact ⟨record, hrecord, x, hx, placed, hex, hframes x hx hex, hbalance, hinstrument, hside,
    hamount, hfamily.mpr (.inl hdigital)⟩

/-- An order for crypto currency is sent as one for a digital option, and kept as one for crypto
currency. -/
theorem crypto_order_is_kept_as_such :
    let b := (start {} loggedIn []).course (placing { tenToBuy with family := .crypto })
    (b.board.wire.sent.filter (·.exchange = some 0)).map Sent.frame =
        [(⟨3, .digitalOption, "1861", .buy, tenToBuy.amount⟩ : Order.Placement).frame.toJson] ∧
      b.orders.records.map (·.details.family) = [.crypto] := by
  decide +kernel

end Service

end VenueLink

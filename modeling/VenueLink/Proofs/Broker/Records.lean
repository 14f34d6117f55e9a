import VenueLink.Proofs.Broker.Described

/-!
# Records and answers

The record of an order is saved when a message answers its exchange, and its caller is told
later, in its own turn. They agree nevertheless. The exchange of an order is the last one of its
caller, which has one acknowledgement at most and answers what was acknowledged; and whoever
answers that its order was placed has had an acknowledgement. So while the store accepts writes
there is one record for each call that was successful, and none for any other call.

## Main results

* `Acknowledgement.id_eq`: nobody has two orders acknowledged.
* `Acknowledgement.answers`: whoever had its order acknowledged answers so.
* `answers_placement`: what a call for a placement answers, and what it goes back to.
* `records_match_successes`: records and successful calls are one to one.
-/

namespace VenueLink

open Exchange Exchange.Plan Correlator Switchboard

variable {ρ : Type}

namespace Broker

/-! ### What an acknowledgement leads to -/

section Acknowledgement

variable {s : Switchboard Answer ρ} {events before later : List (Event Answer ρ)}
  {e : Event Answer ρ} {o : Outcome Answer} {m : Matched Answer} {c : Caller Answer ρ}
  {spec : Spec Answer} {request : Order.Request} {tell : CallResult → ρ}

/-- Nobody has two orders acknowledged: after the acknowledged exchange there is no other one.
-/
theorem Acknowledgement.id_eq (ho : s.Orderly) (heq : events = before ++ e :: later)
    (h : Acknowledgement (s.after before) e o m c spec request tell)
    {before' later' : List (Event Answer ρ)} {e' : Event Answer ρ} {o' : Outcome Answer}
    {m' : Matched Answer} {c' : Caller Answer ρ} {spec' : Spec Answer}
    {request' : Order.Request} {tell' : CallResult → ρ}
    (heq' : events = before' ++ e' :: later')
    (h' : Acknowledgement (s.after before') e' o' m' c' spec' request' tell')
    (hid : c.id = c'.id) : o.id = o'.id := by
  obtain ⟨n, next, hg, -, rfl⟩ := h.goal
  obtain ⟨n', next', hg', -, rfl⟩ := h'.goal
  have hsame : c.goal = c'.goal := by
    rcases List.prefix_or_prefix_of_prefix ⟨_, heq.symm⟩ ⟨_, heq'.symm⟩ with ⟨more, rfl⟩ |
      ⟨more, rfl⟩
    · have hthere := h'.here
      rw [after_append] at hthere
      exact (last_goal (ho.after before) h.here hg hthere hid.symm).symm
    · have hthere := h.here
      rw [after_append] at hthere
      exact last_goal (ho.after before') h'.here hg' hthere hid
  rw [hg, hg'] at hsame
  exact (Goal.exchange.inj hsame).1

/-- Whoever had its order acknowledged is there at the end of the run, or has answered with what
was acknowledged. -/
theorem Acknowledgement.answers (ho : s.Orderly) (hm : s.Minded)
    (h : Acknowledgement (s.after before) e o m c spec request tell) {id : Int}
    {d : Order.Details} (hvalue : m.value = .order id d) (later : List (Event Answer ρ)) :
    (∃ a ∈ (s.after (before ++ e :: later)).callers, a.id = c.id) ∨
      s.Answers (before ++ e :: later) c.id
        (tell (.ok (.placement ⟨true, some id, some m.raw⟩))) := by
  obtain ⟨n, next, hg, -, rfl⟩ := h.goal
  have hreport : Call.placementReport o.resolution = ⟨true, some id, some m.raw⟩ := by
    obtain ⟨value, raw, seen⟩ := m
    obtain rfl := hvalue
    rw [h.matched, Call.placementReport]
  rw [← hreport]
  exact answers_of_decided ho hm h.here hg h.ended later

end Acknowledgement

/-! ### What a call for a placement answers -/

section Course

variable {config : VenueConfig} {session : SessionScript} {responders : List Responder}
  {deeds : List (Deed ρ)}

/-- The caller of a call for a placement is there at the end of a course, or it has answered:
with an error, with the failure of the exchange of its order, or because that exchange has kept
the order. -/
theorem answers_placement {k : Nat} {label : String} {request : Order.Request}
    {tell : CallResult → ρ}
    (hcall : (start config session responders).Brought deeds k
      (.call label (.placement request) tell)) :
    let b := start config session responders
    (∃ c ∈ (b.course deeds).board.callers, c.id = k) ∨
      ∃ result, b.board.Answers (b.history deeds) k (tell result) ∧
        ((∃ e, result = .error e) ∨
          (∃ seen, result = .ok (.placement ⟨false, none, some (.array seen)⟩)) ∨
          ∃ ex d before, (b.course deeds).kept? ex = some d ∧ before <+: b.history deeds ∧
            ex ∈ (b.board.after before).correlator.pendingIds ∧
            ∃ c ∈ (b.board.after before).callers, c.id = k ∧ c.goal.exchange? = some ex) := by
  intro b
  have ho : b.board.Orderly := orderly_board_start config session responders
  obtain ⟨before, later, b', heq, rfl, -⟩ := hcall.launch ho
  rw [← after_history_course ho, heq, after_append]
  rcases gotOn_launch (ho.after before) label ((b'.prepare (.placement request)).2.2.map tell)
    later with ⟨c, hc, hid, -⟩ | ⟨x, n, htold, hleads⟩
  · exact .inl ⟨c, hc, hid⟩
  obtain ⟨result, hresult, rfl⟩ := hleads.of_map
  refine .inr ⟨result, answers_of_told ho htold, ?_⟩
  rcases leads_placement hresult with ⟨e, rfl⟩ | ⟨spec, r, hp, ⟨ex, hran⟩, rfl⟩
  · exact .inl ⟨e, rfl⟩
  · cases r with
    | failed f => exact .inr (.inl ⟨_, rfl⟩)
    | matched m =>
      obtain ⟨haccepts, hvalue⟩ := hran.read m rfl
      obtain ⟨id, d, -, hanswer⟩ := hp.answer haccepts
      obtain ⟨first, e, rest, hsplit, hpending, -, c, hc, hid, hex⟩ := hran.answered m rfl
      rw [← after_append] at hpending hc
      refine .inr (.inr ⟨ex, d, before ++ first, ?_, ⟨e :: rest, ?_⟩, hpending, c, hc, hid,
        exchange?_of_errand? hex⟩)
      · rw [kept?, ← after_history_course ho, heq, after_append, hran.ended, Option.bind_some,
          Resolution.value?, Option.bind_some, hvalue, hanswer, Answer.kept?]
      · rw [hsplit, List.append_assoc]

/-! ### The ledger -/

/-- In a course the order of the caller `k` is acknowledged, with the outcome `o`. -/
def Acknowledged (b : Broker ρ) (deeds : List (Deed ρ)) (k : Nat) (o : Outcome Answer) : Prop :=
  ∃ before e later m c spec label request tell,
    b.history deeds = before ++ e :: later ∧ c.id = k ∧
    b.Brought deeds k (.call label (.placement request) tell) ∧
    Acknowledgement (b.board.after before) e o m c spec request tell

/-- An order that is kept is one that a caller was acknowledged. -/
theorem exists_acknowledged {o : Outcome Answer}
    (ho : o ∈ ((start config session responders).course deeds).board.correlator.outcomes)
    {d : Order.Details} (hd : o.resolution.value?.bind Answer.kept? = some d) :
    ∃ k, (start config session responders).Acknowledged deeds k o := by
  obtain ⟨before, e, later, m, c, spec, label, request, tell, heq, hbrought, hack⟩ :=
    exists_acknowledgement ho hd
  exact ⟨c.id, before, e, later, m, c, spec, label, request, tell, heq, rfl, hbrought, hack⟩

/-- A caller is acknowledged one order at most. -/
theorem Acknowledged.id_eq {b : Broker ρ} (hord : b.board.Orderly) {k : Nat}
    {o o' : Outcome Answer} (h : b.Acknowledged deeds k o) (h' : b.Acknowledged deeds k o') :
    o.id = o'.id := by
  obtain ⟨before, e, later, m, c, spec, label, request, tell, heq, hid, -, hack⟩ := h
  obtain ⟨before', e', later', m', c', spec', label', request', tell', heq', hid', -, hack'⟩ :=
    h'
  exact hack.id_eq hord heq heq' hack' (hid.trans hid'.symm)

/-- An acknowledged order belongs to whoever has come to its exchange while that was open. -/
theorem Acknowledged.owner_eq {b : Broker ρ} (hord : b.board.Orderly) {k : Nat}
    {o : Outcome Answer} (h : b.Acknowledged deeds k o) {before : List (Event Answer ρ)}
    (hpre : before <+: b.history deeds)
    (hp : o.id ∈ (b.board.after before).correlator.pendingIds) {c : Caller Answer ρ}
    (hc : c ∈ (b.board.after before).callers) (hex : c.goal.exchange? = some o.id) :
    k = c.id := by
  obtain ⟨before', e, later, m, c', spec, label, request, tell, heq, rfl, -, hack⟩ := h
  obtain ⟨n, next, hg, -⟩ := hack.goal
  exact same_owner hord ⟨_, heq.symm⟩ hpre hack.here hc (by rw [hg, Goal.exchange?]) hex
    hack.pending hp

/-- A list can be carried along one whose second components can be read off it. -/
theorem exists_carried {κ β δ : Type} {l : List β} {f : β → δ} {pairs : List (κ × δ)}
    (h : l.map f = pairs.map Prod.snd) :
    ∃ ledger : List (κ × β), ledger.map Prod.snd = l ∧
      ledger.map (fun p => (p.1, f p.2)) = pairs := by
  have hlen : l.length = pairs.length := by simpa using congrArg List.length h
  refine ⟨(pairs.map Prod.fst).zip l, List.map_snd_zip (by simp [hlen]), ?_⟩
  calc ((pairs.map Prod.fst).zip l).map (fun p => (p.1, f p.2))
      = (pairs.map Prod.fst).zip (l.map f) := (List.zip_map_right ..).symm
    _ = (pairs.map Prod.fst).zip (pairs.map Prod.snd) := by rw [h]
    _ = pairs := (List.zip_of_prod rfl rfl).symm

/-- What is kept with an outcome, under the caller to whom it belongs. -/
def line (owner : Outcome Answer → Nat) (o : Outcome Answer) : Option (Nat × Order.Details) :=
  (o.resolution.value?.bind Answer.kept?).map (owner o, ·)

/-- A line of the records is an order with its caller. -/
theorem line_eq_some_iff {owner : Outcome Answer → Nat} {o : Outcome Answer}
    {p : Nat × Order.Details} :
    line owner o = some p ↔
      o.resolution.value?.bind Answer.kept? = some p.2 ∧ owner o = p.1 := by
  obtain ⟨k, d⟩ := p
  rw [line, Option.map_eq_some_iff]
  constructor
  · rintro ⟨d', hd, heq⟩
    cases heq
    exact ⟨hd, rfl⟩
  · rintro ⟨hd, rfl⟩
    exact ⟨d, hd, rfl⟩

/-- All that is kept, under the callers to whom it belongs. -/
def lines (s : Switchboard Answer ρ) (owner : Outcome Answer → Nat) :
    List (Nat × Order.Details) :=
  s.correlator.outcomes.filterMap (line owner)

/-- The lines have all orders that are kept. -/
theorem map_snd_lines (s : Switchboard Answer ρ) (owner : Outcome Answer → Nat) :
    (lines s owner).map Prod.snd = s.kept := by
  rw [lines, List.map_filterMap, kept]
  congr 1
  funext o
  simp [line, Function.comp_def]

/-- No caller has two lines if what is kept belongs to who brought the order in. -/
theorem nodup_fst_lines {b : Broker ρ} (hord : b.board.Orderly) {s : Switchboard Answer ρ}
    (hs : s.correlator.Sound) {owner : Outcome Answer → Nat}
    (howner : ∀ o ∈ s.correlator.outcomes, ∀ d, o.resolution.value?.bind Answer.kept? = some d →
      b.Acknowledged deeds (owner o) o) :
    ((lines s owner).map Prod.fst).Nodup := by
  rw [List.Nodup, List.pairwise_map, lines, List.pairwise_filterMap]
  have hnodup : s.correlator.outcomes.Pairwise (·.id ≠ ·.id) :=
    List.pairwise_map.mp hs.outcomes_nodup
  -- two lines of one caller are about the same outcome
  refine hnodup.imp_of_mem fun {o o'} ho ho' hne p hp p' hp' heq => hne ?_
  obtain ⟨hd, hk⟩ := line_eq_some_iff.mp hp
  obtain ⟨hd', hk'⟩ := line_eq_some_iff.mp hp'
  have hack := hk ▸ howner o ho _ hd
  have hack' := hk' ▸ howner o' ho' _ hd'
  exact hack.id_eq hord (heq ▸ hack')

/-- While the store accepts writes each record belongs to one caller, and the other way round.
-/
theorem exists_ledger (config : VenueConfig) (session : SessionScript)
    (responders : List Responder) (hstores : ∀ failure, .stores (some failure) ∉ deeds) :
    let b := start config session responders
    ∃ ledger : List (Nat × Order.Record),
      ledger.map Prod.snd = (b.course deeds).orders.records ∧
      (ledger.map Prod.fst).Nodup ∧
      (∀ p ∈ ledger, ∃ o, b.Acknowledged deeds p.1 o ∧
        o.resolution.value?.bind Answer.kept? = some p.2.details) ∧
      ∀ o ∈ (b.course deeds).board.correlator.outcomes, ∀ d k,
        o.resolution.value?.bind Answer.kept? = some d → b.Acknowledged deeds k o →
        ∃ record, (k, record) ∈ ledger := by
  intro b
  have hord : b.board.Orderly := orderly_board_start config session responders
  have hfinal : (b.course deeds).board.Orderly := after_history_course hord deeds ▸ hord.after _
  have hown : ∀ o, ∃ k, o ∈ (b.course deeds).board.correlator.outcomes → ∀ d,
      o.resolution.value?.bind Answer.kept? = some d → b.Acknowledged deeds k o := fun o => by
    by_cases h : ∃ k, b.Acknowledged deeds k o
    · exact h.imp fun k hk _ _ _ => hk
    · exact ⟨0, fun ho d hd => absurd (exists_acknowledged ho hd) h⟩
  choose owner howner using hown
  have hlines := (map_snd_lines _ owner).trans
    (details_course hord (recorded_start config session responders) hstores).details_eq.symm
  obtain ⟨ledger, hrecords, hledger⟩ := exists_carried hlines.symm
  have hfst : ledger.map Prod.fst = (lines (b.course deeds).board owner).map Prod.fst := by
    rw [← hledger, List.map_map]
    rfl
  have hmem : ∀ {p}, p ∈ ledger →
      (p.1, p.2.details) ∈ lines (b.course deeds).board owner := fun hp =>
    hledger ▸ List.mem_map_of_mem hp
  refine ⟨ledger, hrecords, ?_, fun p hp => ?_, fun o ho d k hd hack => ?_⟩
  · rw [hfst]
    exact nodup_fst_lines hord hfinal.sound howner
  · obtain ⟨o, ho, hp'⟩ := List.mem_filterMap.mp (hmem hp)
    obtain ⟨hd, hk⟩ := line_eq_some_iff.mp hp'
    exact ⟨o, hk ▸ howner o ho _ hd, hd⟩
  · obtain ⟨before, e, later, m, c, spec, label, request, tell, heq, hid, -, hack'⟩ :=
      howner o ho d hd
    obtain ⟨n, next, hg, -⟩ := hack'.goal
    have hk : k = owner o := (hack.owner_eq hord ⟨_, heq.symm⟩ hack'.pending hack'.here
      (by rw [hg, Goal.exchange?])).trans hid
    have hin : (k, d) ∈ lines (b.course deeds).board owner :=
      List.mem_filterMap.mpr ⟨o, ho, line_eq_some_iff.mpr ⟨hd, hk.symm⟩⟩
    rw [← hledger] at hin
    obtain ⟨p, hp, heq⟩ := List.mem_map.mp hin
    exact ⟨p.2, (Prod.mk.inj heq).1 ▸ hp⟩

/-- What a ledger has for a call that answered `result`: the record of the order if the call was
successful, under the id and with the message of its answer, and nothing if it was not. -/
def Tallies (ledger : List (Nat × Order.Record)) (k : Nat) (result : CallResult) : Prop :=
  (∃ id raw record, result = .ok (.placement ⟨true, some id, some raw⟩) ∧ id ≠ 0 ∧
      (k, record) ∈ ledger ∧ record.details.brokerOrderId = id ∧
      record.details.rawPlaceResponse = raw) ∨
    ((∃ e, result = .error e) ∨
        ∃ seen, result = .ok (.placement ⟨false, none, some (.array seen)⟩)) ∧
      ∀ record, (k, record) ∉ ledger

end Course

/-- While the store accepts writes, its records are one to one with the calls for placements
that answered that they were successful. The ledger has each record with the caller to whom it
belongs. -/
theorem records_match_successes (config : VenueConfig) (session : SessionScript)
    (responders : List Responder) (deeds : List (Deed ρ))
    (hstores : ∀ failure, .stores (some failure) ∉ deeds) :
    let b := start config session responders
    ∃ ledger : List (Nat × Order.Record),
      ledger.map Prod.snd = (b.course deeds).orders.records ∧
      (ledger.map Prod.fst).Nodup ∧
      (∀ p ∈ ledger, ∃ label request tell,
        b.Brought deeds p.1 (.call label (.placement request) tell)) ∧
      ∀ k label request tell, b.Brought deeds k (.call label (.placement request) tell) →
        (∃ c ∈ (b.course deeds).board.callers, c.id = k) ∨
          ∃ result, b.board.Answers (b.history deeds) k (tell result) ∧
            (∀ r, b.board.Answers (b.history deeds) k r → r = tell result) ∧
            Tallies ledger k result := by
  intro b
  have hord : b.board.Orderly := orderly_board_start config session responders
  have hfinal : (b.course deeds).board.Orderly := after_history_course hord deeds ▸ hord.after _
  obtain ⟨ledger, hrecords, hnodup, hof, hinto⟩ :=
    exists_ledger config session responders hstores
  refine ⟨ledger, hrecords, hnodup, fun p hp => ?_, fun k label request tell hcall => ?_⟩
  · obtain ⟨o, ⟨before, e, later, m, c, spec, label, request, tell, -, -, hbrought, -⟩, -⟩ :=
      hof p hp
    exact ⟨label, request, tell, hbrought⟩
  have hunique : ∀ result, b.board.Answers (b.history deeds) k (tell result) →
      ∀ r, b.board.Answers (b.history deeds) k r → r = tell result :=
    fun result hresult r hr => Answers.unique hord hr hresult
  by_cases hrecord : ∃ record, (k, record) ∈ ledger
  · -- the order was acknowledged, so the caller answers that it was placed
    obtain ⟨record, hmem⟩ := hrecord
    obtain ⟨o,
      ⟨before, e, later, m, c, spec, label', request', tell', heq, rfl, hbrought, hack⟩, hd⟩ :=
      hof _ hmem
    obtain ⟨profile, side, instrumentId, id, -, hid, hvalue⟩ := hack.details
    have hsame := ((brought_iff hord rfl rfl).mp hcall).symm.trans
      ((brought_iff hord rfl rfl).mp hbrought)
    obtain ⟨-, -, rfl⟩ := Deed.call.inj (Option.some.inj hsame)
    rw [hack.matched, Resolution.value?, Option.bind_some, hvalue] at hd
    have hdetails := Option.some.inj hd
    have hminded := minded_board_start (ρ := ρ) config session responders
    rcases hack.answers hord hminded hvalue later with hthere | hanswers
    · rw [← heq, after_history_course hord] at hthere
      exact .inl hthere
    · rw [← heq] at hanswers
      refine .inr ⟨_, hanswers, hunique _ hanswers, .inl ⟨id, m.raw, record, rfl,
        Order.idIn?_ne_zero hid, hmem, ?_⟩⟩
      rw [← hdetails]
      exact ⟨rfl, rfl⟩
  · -- nothing was acknowledged, so what the caller answers is no success
    have hnone : ∀ record, (k, record) ∉ ledger := fun record hmem => hrecord ⟨record, hmem⟩
    rcases answers_placement hcall with hthere | ⟨result, hanswers, hresult⟩
    · exact .inl hthere
    refine .inr ⟨result, hanswers, hunique _ hanswers, ?_⟩
    rcases hresult with herror | hfailed | ⟨ex, d, before, hkept, hpre, hp, c, hc, rfl, hex⟩
    · exact .inr ⟨.inl herror, hnone⟩
    · exact .inr ⟨.inr hfailed, hnone⟩
    · obtain ⟨o, ho, rfl, hd⟩ := (kept?_eq_some_iff hfinal).mp hkept
      obtain ⟨k, hack⟩ := exists_acknowledged ho hd
      obtain rfl := hack.owner_eq hord hpre hp hc hex
      exact absurd (hinto o ho d _ hd hack) hrecord

end Broker

namespace Service

open Broker

/-- Two orders are on their way at the same time. The first one is acknowledged and the second
one refused. -/
def overlapping : List (Deed CallResult) :=
  [.call "a" (.placement tenToBuy) id, .call "b" (.placement tenToBuy) id, .advance 150,
    .wire (.push receipt), .wire (.push refusal)]

/-- A broker that has a session and has done nothing yet. -/
def fresh : Broker CallResult :=
  start {} loggedIn []

/-- Of two orders that have both been answered one has been recorded, and the ledger has it with
the caller who was told so. -/
theorem overlapping_orders_match :
    (∀ failure, .stores (some failure) ∉ overlapping) ∧
      (fresh.course overlapping).board.callers.length = 0 ∧
      (fresh.course overlapping).orders.records.length = 1 ∧
      ∃ ledger : List (Nat × Order.Record),
        ledger.map Prod.snd = (fresh.course overlapping).orders.records ∧
        (ledger.map Prod.fst).Nodup ∧
        ∀ k < 2, ∃ result, fresh.board.Answers (fresh.history overlapping) k result ∧
          Tallies ledger k result := by
  have hstores : ∀ failure, .stores (some failure) ∉ overlapping := by simp [overlapping]
  have hnone : (fresh.course overlapping).board.callers.length = 0 := by decide +kernel
  obtain ⟨ledger, hrecords, hnodup, -, hall⟩ :=
    records_match_successes {} loggedIn [] overlapping hstores
  refine ⟨hstores, hnone, by decide +kernel, ledger, hrecords, hnodup, fun k hk => ?_⟩
  have hcall : ∃ label, fresh.Brought overlapping k (.call label (.placement tenToBuy) id) := by
    obtain rfl | rfl : k = 0 ∨ k = 1 := by omega
    · exact ⟨"a", [], _, rfl, rfl⟩
    · exact ⟨"b", [_], _, rfl, by decide +kernel⟩
  obtain ⟨label, hcall⟩ := hcall
  rcases hall k label tenToBuy id hcall with ⟨c, hc, -⟩ | ⟨result, hanswers, -, htallies⟩
  · have hempty := List.eq_nil_of_length_eq_zero hnone
    exact absurd hc (hempty ▸ List.not_mem_nil)
  · exact ⟨result, hanswers, htallies⟩

end Service

end VenueLink

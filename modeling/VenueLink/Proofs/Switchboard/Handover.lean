import VenueLink.Proofs.Switchboard.Run

/-!
# When a request is sent

The request of an exchange is sent by one thing only: its caller has a turn while it is
underway, and finds nothing left to wait for. That turn does not ask what has become of the
exchange.

## Main results

* `mem_drop_requests_iff`: in a run of events the request of an exchange is sent exactly if its
  caller has such a turn.
* `not_mem_drop_requests`: once nobody is underway for an exchange its request is not sent
  any more.
-/

namespace VenueLink.Switchboard

open Exchange Correlator

variable {α ρ : Type}

/-- A caller is underway with the request of the exchange. -/
def InDelivery (s : Switchboard α ρ) (ex : Nat) : Prop :=
  ∃ c ∈ s.callers, c.goal.exchange? = some ex ∧ c.stage ≠ .waiting

/-- What is done next is the turn of the caller of the exchange, and its delivery comes through.
-/
def HandsOver (s : Switchboard α ρ) (ex : Nat) : Prop :=
  ∃ c spec rest, s.ready = .caller c.id :: rest ∧ s.caller? c.id = some c ∧
    c.goal.errand? = some (ex, spec) ∧ s.ComesThrough spec c.stage

/-- Whether a delivery comes through does not depend on what else is ready. -/
theorem comesThrough_ready (s : Switchboard α ρ) (tasks : List Task) (spec : Spec α)
    (stage : Stage) :
    ({ s with ready := tasks } : Switchboard α ρ).ComesThrough spec stage ↔
      s.ComesThrough spec stage := by
  cases stage <;> rfl

/-- A delivery sends the request of its exchange, if it comes through. -/
theorem mem_sent_iff {ex id : Nat} {d : Delivery} :
    ex ∈ d.sent id ↔ d = .delivered ∧ ex = id := by
  cases d <;> simp [Delivery.sent]

/-- What is done next sends a request exactly if it is a turn in which the delivery comes
through. -/
theorem mem_sentNext_iff {s : Switchboard α ρ} {ex : Nat} :
    ex ∈ s.sentNext ↔ s.HandsOver ex := by
  constructor
  · intro hmem
    cases hr : s.ready with
    | nil => simp [sentNext, hr] at hmem
    | cons t rest =>
      cases t with
      | signals => simp [sentNext, hr] at hmem
      | announce g => simp [sentNext, hr] at hmem
      | watch id => simp [sentNext, hr] at hmem
      | expire id => simp [sentNext, hr] at hmem
      | caller k =>
        cases hf : s.caller? k with
        | none => simp [sentNext, hr, hf] at hmem
        | some c =>
          obtain rfl := (mem_of_caller?_eq_some hf).2
          simp only [sentNext, hr, hf, sentBy] at hmem
          cases he : c.goal.errand? with
          | none => simp [he] at hmem
          | some p =>
            obtain ⟨id, spec⟩ := p
            simp only [he, mem_sent_iff, deliver_eq_delivered_iff] at hmem
            obtain ⟨hthrough, rfl⟩ := hmem
            exact ⟨c, spec, rest, hr, hf, he,
              (s.comesThrough_ready rest spec c.stage).mp hthrough⟩
  · rintro ⟨c, spec, rest, hr, hf, he, hthrough⟩
    simp only [sentNext, hr, hf, sentBy, he, mem_sent_iff, deliver_eq_delivered_iff]
    exact ⟨(s.comesThrough_ready rest spec c.stage).mpr hthrough, trivial⟩

/-- A run of events sends the requests of those exchanges whose deliveries come through on the
way. -/
theorem mem_sentOver_iff {s : Switchboard α ρ} {events : List (Event α ρ)} {ex : Nat} :
    ex ∈ s.sentOver events ↔
      ∃ before later, events = before ++ .next :: later ∧ (s.after before).HandsOver ex := by
  induction events generalizing s with
  | nil => simp [sentOver]
  | cons e rest ih =>
    rw [sentOver, List.mem_append, ih]
    constructor
    · rintro (hnow | ⟨before, later, rfl, hands⟩)
      · cases e with
        | next => exact ⟨[], rest, rfl, mem_sentNext_iff.mp hnow⟩
        | _ => exact absurd hnow List.not_mem_nil
      · exact ⟨e :: before, later, rfl, hands⟩
    · rintro ⟨before, later, heq, hands⟩
      cases before with
      | nil =>
        obtain ⟨rfl, rfl⟩ := List.cons.inj heq
        exact .inl (mem_sentNext_iff.mpr hands)
      | cons b before =>
        obtain ⟨rfl, rfl⟩ := List.cons.inj heq
        exact .inr ⟨before, later, rfl, hands⟩

/-- In a run of events the request of an exchange that was there before is sent exactly if its
caller has a turn in which the delivery comes through. -/
theorem mem_drop_requests_iff {s : Switchboard α ρ} (h : s.Orderly) {ex : Nat}
    (hlt : ex < s.correlator.next) (events : List (Event α ρ)) :
    ex ∈ (s.after events).requests.drop s.requests.length ↔
      ∃ before later, events = before ++ .next :: later ∧ (s.after before).HandsOver ex := by
  obtain ⟨more, heq, hsub, hall⟩ := (h.evolves events).requests
  rw [heq, List.drop_left, ← mem_sentOver_iff]
  constructor
  · intro hmem
    rcases hall ex hmem with hsent | hge
    · exact hsent
    · omega
  · exact fun hsent => hsub hsent

/-- Whoever hands over a request is underway with it. -/
theorem HandsOver.inDelivery {s : Switchboard α ρ} {ex : Nat} (h : s.HandsOver ex) :
    s.InDelivery ex := by
  obtain ⟨c, spec, rest, -, hf, he, hthrough⟩ := h
  refine ⟨c, List.mem_of_find?_eq_some hf, exchange?_of_errand? he, fun hstage => ?_⟩
  rw [hstage] at hthrough
  exact hthrough

/-- A caller that is underway for an exchange was underway for it before. -/
theorem InDelivery.of_after {s : Switchboard α ρ} (h : s.Orderly) {ex : Nat}
    (hlt : ex < s.correlator.next) {events : List (Event α ρ)}
    (hd : (s.after events).InDelivery ex) : s.InDelivery ex := by
  obtain ⟨d, hd, hde, hstage⟩ := hd
  obtain ⟨c, hc, hcd⟩ := (h.evolves events).back d hd ex hde hlt
  exact ⟨c, hc, hcd.goal_eq ▸ hde, fun heq => hstage (hcd.waiting heq)⟩

/-- Once nobody is underway for an exchange its request is not sent any more. -/
theorem not_mem_drop_requests {s : Switchboard α ρ} (h : s.Orderly) {ex : Nat}
    (hlt : ex < s.correlator.next) (hd : ¬s.InDelivery ex) (events : List (Event α ρ)) :
    ex ∉ (s.after events).requests.drop s.requests.length := by
  rw [mem_drop_requests_iff h hlt]
  rintro ⟨before, later, -, hands⟩
  exact hd (hands.inDelivery.of_after h hlt)

/-- Nobody is underway for an exchange that has run into its deadline. -/
theorem not_inDelivery_of_timeout {s : Switchboard α ρ} (h : s.Orderly) {ex : Nat}
    {o : Outcome α} {seen : List Json} (ho : s.correlator.outcome? ex = some o)
    (hr : o.resolution = .failed ⟨.timeout, seen⟩) : ¬s.InDelivery ex := by
  rintro ⟨c, hc, hce, hstage⟩
  obtain ⟨spec, he⟩ := Goal.exchange?_eq_some_iff.mp hce
  exact ((h.fits hc he).underway hstage).1.untimed o ho seen hr

/-- A request that has been sent is not underway any more. -/
theorem not_inDelivery_of_mem_requests {s : Switchboard α ρ} (h : s.Orderly) {ex : Nat}
    (hmem : ex ∈ s.requests) : ¬s.InDelivery ex := by
  rintro ⟨c, hc, hce, hstage⟩
  obtain ⟨spec, he⟩ := Goal.exchange?_eq_some_iff.mp hce
  exact ((h.fits hc he).underway hstage).1.unsent hmem

end VenueLink.Switchboard

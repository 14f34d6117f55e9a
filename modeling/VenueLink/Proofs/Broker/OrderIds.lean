import VenueLink.Proofs.Broker.Records
import VenueLink.Proofs.Broker.SameConnection
import Mathlib.Data.List.Pairwise

/-!
# Order ids

An order is kept under the id that its acknowledgement carries, whatever has been kept before.
So it is up to the venue that ids are told apart: a message acknowledges one order at most, and
two orders have different ids if no two messages carry the same id. Of two messages with one id,
which may well be about one order, each acknowledges an order if two are waiting for it.

## Main results

* `sources_sweep`: a message acknowledges one order at most, under the id that it carries.
* `kept_occur`, `kept_after`: the orders that are kept come from messages of their own, in
  order.
* `orders_have_own_messages`: so records and answers have different ids if the messages do.
* `order_id_is_kept_twice`: two records, and two answers, with one id.
-/

namespace VenueLink

open Exchange Exchange.Plan Correlator Switchboard

variable {ρ : Type}

/-! ### Where orders that are kept come from -/

/-- The id that an order is kept under, and the message that acknowledged it. -/
def Order.Details.source (d : Order.Details) : Int × Json :=
  (d.brokerOrderId, d.rawPlaceResponse)

/-- The order id that a signal carries, with the message. -/
def Signal.numbered? : Signal → Option (Int × Json)
  | .message _ payload => (Order.idIn? payload).map (·, payload)
  | _ => none

/-- An exchange acknowledges no orders, or it takes its messages for itself, and keeps an order
under the id that the message carries. -/
def Sole (m : Matcher Answer) : Prop :=
  (∀ raw, (m.answer raw).kept? = none) ∨ m.shared = false ∧
    ∀ raw d, m.accepts raw → (m.answer raw).kept? = some d →
      (Order.idIn? raw).map (·, raw) = some d.source

/-- The exchange of an order is such an exchange. -/
theorem Call.Places.sole {limits : Limits} {request : Order.Request} {spec : Spec Answer}
    (h : Call.Places limits request spec) : Sole spec.matcher := by
  obtain ⟨profile, side, instrumentId, rfl⟩ := h
  refine .inr ⟨rfl, fun raw d haccepts hkept => ?_⟩
  obtain ⟨id, hid⟩ := Option.isSome_iff_exists.mp haccepts
  have hd : (Call.draftOf profile request side instrumentId).details ((Order.idIn? raw).getD 0)
      raw = d :=
    Option.some.inj hkept
  rw [← hd, hid]
  rfl

/-- What is kept with the outcome of an exchange. -/
def keptWith (r : Resolution Answer) : Option Order.Details :=
  r.value?.bind Answer.kept?

/-- What an exchange keeps when it decides on a message comes from that message, and nobody else
sees the message then. -/
theorem Sole.source_eq {e : Entry Answer} (h : Sole e.matcher) {m : Json}
    {r : Resolution Answer} (hr : e.decide? m = some r) {d : Order.Details}
    (hd : keptWith r = some d) :
    e.matcher.stops m = true ∧ (Order.idIn? m).map (·, m) = some d.source := by
  obtain ⟨a, id, rfl, hvalue⟩ := Resolution.matched_of_kept hd
  obtain ⟨haccepts, rfl⟩ := decide?_matched hr
  rcases h with hnone | ⟨hshared, hsource⟩
  · exact absurd hd (by simp [keptWith, Resolution.value?, hnone])
  · refine ⟨?_, hsource m d haccepts hd⟩
    simp [Matcher.stops, Matcher.verdict, haccepts, hshared]

/-- A message acknowledges one order at most. -/
theorem sources_sweep {m : Json} {l : List (Entry Answer)} (h : ∀ e ∈ l, Sole e.matcher) :
    (((sweep m l).2.filterMap (keptWith ·.2)).map Order.Details.source).Sublist
      ((Order.idIn? m).map (·, m)).toList := by
  induction l with
  | nil => exact List.nil_sublist _
  | cons e rest ih =>
    have hrest := ih fun d hd => h d (List.mem_cons_of_mem e hd)
    cases hr : e.decide? m with
    | none =>
      rw [sweep, hr]
      exact hrest
    | some r =>
      cases hd : keptWith r with
      | none =>
        rw [sweep, hr]
        dsimp only
        split
        · simp [hd]
        · simpa [hd] using hrest
      | some d =>
        obtain ⟨hstops, hsource⟩ := (h e List.mem_cons_self).source_eq hr hd
        rw [sweep, hr, hsource]
        simp [hstops, hd]

namespace Switchboard

/-- All open exchanges take the acknowledgements of orders for themselves. -/
def AllSole (s : Switchboard Answer ρ) : Prop :=
  ∀ e ∈ s.correlator.entries, Sole e.matcher

/-- Between `s` and `s'` orders are kept, each of which comes from a signal of its own. -/
def KeepsFrom (signals : List Signal) (s s' : Switchboard Answer ρ) : Prop :=
  ∃ more, s'.kept = s.kept ++ more ∧
    (more.map Order.Details.source).Sublist (signals.filterMap Signal.numbered?)

/-- Orders are kept from some signals, and then from others. -/
theorem KeepsFrom.trans {xs ys : List Signal} {s₁ s₂ s₃ : Switchboard Answer ρ}
    (h₁ : KeepsFrom xs s₁ s₂) (h₂ : KeepsFrom ys s₂ s₃) : KeepsFrom (xs ++ ys) s₁ s₃ := by
  refine exists_append_trans h₁ h₂ fun hsub₁ hsub₂ => ?_
  rw [List.map_append, List.filterMap_append]
  exact hsub₁.append hsub₂

/-- No order is kept. -/
theorem keepsFrom_of_eq {signals : List Signal} {s s' : Switchboard Answer ρ}
    (h : s'.kept = s.kept) : KeepsFrom signals s s' :=
  ⟨[], by rw [h, List.append_nil], List.nil_sublist _⟩

/-- Nothing is kept where no exchange is answered. -/
theorem kept_of_unanswered {s s' : Switchboard Answer ρ} (hs : s'.correlator.Sound)
    (hpre : s.correlator.outcomes <+: s'.correlator.outcomes) (hu : Unanswered s s') :
    s'.kept = s.kept := by
  obtain ⟨more, hmore⟩ := hpre
  have hnone : more.filterMap (keptWith ·.resolution) = [] := by
    rw [List.filterMap_eq_nil_iff]
    intro o ho
    have hnodup := hs.outcomes_nodup
    rw [← hmore, List.map_append] at hnodup
    have hend := hs.outcome?_of_mem (hmore ▸ List.mem_append_right _ ho)
    rcases hu o.id o hend with hold | ⟨f, hf, -⟩
    · have hmem := List.mem_map_of_mem (f := Outcome.id) (List.mem_of_find?_eq_some hold)
      exact (List.disjoint_of_nodup_append hnodup hmem (List.mem_map_of_mem ho)).elim
    · rw [hf]
      rfl
  have hsplit : s'.kept = s.kept ++ more.filterMap (keptWith ·.resolution) := by
    rw [kept, ← hmore, List.filterMap_append]
    rfl
  rw [hsplit, hnone, List.append_nil]

/-- An exchange that stays open does so on its terms. -/
theorem AllSole.passes {s s' : Switchboard Answer ρ} (h : s.AllSole) {expired : List Nat}
    (hpass : Passes expired s s') : s'.AllSole := by
  obtain ⟨ended, hends, -⟩ := hpass.ends
  intro e he
  obtain ⟨d, hd, hterms⟩ := hends.terms_mem he
  have hmatcher : d.matcher = e.matcher := congrArg (·.2.1) hterms
  exact hmatcher ▸ h d hd

section Sound

variable {s : Switchboard Answer ρ} (hs : s.correlator.Sound) (hsole : s.AllSole)
include hs hsole

/-- A signal acknowledges one order at most. -/
theorem kept_handle (x : Signal) : KeepsFrom [x] s (s.handle x) := by
  by_cases hx : x.generation = s.link.generation
  · cases x with
    | message g payload =>
      obtain rfl : g = s.link.generation := hx
      have hdecided : ∀ e ∈ s.correlator.entries.map (Entry.record s.correlator.cap payload),
          Sole e.matcher := fun e he => by
        obtain ⟨d, hd, rfl⟩ := List.mem_map.mp he
        rw [matcher_record]
        exact hsole d hd
      rw [handle_message]
      refine ⟨_, ?_, sources_sweep hdecided⟩
      rw [kept, correlator_dispatch, (ends_dispatch hs s.now payload).outcomes_eq,
        List.filterMap_append, List.filterMap_map]
      rfl
    | opened g =>
      obtain rfl : g = s.link.generation := hx
      exact keepsFrom_of_eq (by rw [kept, correlator_handle_opened, kept])
    | closed g reason =>
      obtain rfl : g = s.link.generation := hx
      refine keepsFrom_of_eq ?_
      rw [kept, correlator_handle_closed, (ends_failAll hs s.now .connectionLost).outcomes_eq,
        List.filterMap_append, List.filterMap_map]
      simp [kept, Entry.failure, Resolution.value?]
  · rw [handle_of_ne hx]
    exact keepsFrom_of_eq rfl

/-- Signals that are handled one by one. -/
theorem kept_foldl_handle (signals : List Signal) :
    KeepsFrom signals s (signals.foldl handle s) := by
  induction signals generalizing s with
  | nil => exact keepsFrom_of_eq rfl
  | cons x rest ih =>
    have hpass := passes_handle hs x
    exact (kept_handle hs hsole x).trans (ih (hpass.sound hs) (hsole.passes hpass))

/-- What is kept while signals are handled until there are none comes from those that were there
and from the replies to a handshake that was sent on the way. -/
theorem kept_drain : KeepsFrom (s.inbox ++ s.sift.inbox) s s.drain := by
  have hpass := passes_sift hs
  have hfirst : KeepsFrom s.inbox s s.sift :=
    kept_foldl_handle (s := { s with inbox := [] }) hs hsole s.inbox
  have hsole' : s.sift.AllSole := hsole.passes hpass
  have hsecond : KeepsFrom s.sift.inbox s.sift s.sift.sift :=
    kept_foldl_handle (s := { s.sift with inbox := [] }) (hpass.sound hs) hsole' s.sift.inbox
  exact hfirst.trans hsecond

end Sound

/-! ### Events -/

/-- The signals that are handled in an event, in order. -/
def handledIn (s : Switchboard Answer ρ) : Event Answer ρ → List Signal
  | .next =>
    match s.ready with
    | .signals :: rest =>
        s.inbox ++ ({ s with ready := rest } : Switchboard Answer ρ).sift.inbox
    | _ => []
  | .act .pump => s.inbox ++ s.sift.inbox
  | .act (.signal x) => [x]
  | _ => []

/-- The messages with an order id that are handled in several events, in order, each with its
id. -/
def numberedIn (s : Switchboard Answer ρ) : List (Event Answer ρ) → List (Int × Json)
  | [] => []
  | e :: rest => (s.handledIn e).filterMap Signal.numbered? ++ (s.occur e).numberedIn rest

/-- Moves that handle no signal keep no orders. -/
theorem keepsFrom_of_shift {s s' : Switchboard Answer ρ} (hs : s'.correlator.Sound)
    (hpre : s.correlator.outcomes <+: s'.correlator.outcomes) (h : Shift s [] s') :
    KeepsFrom [] s s' := by
  cases h with
  | turn _ _ hu _ => exact keepsFrom_of_eq (kept_of_unanswered hs hpre hu)
  | hangUp reason => exact keepsFrom_of_eq (by rw [kept, (aside_hear _ _).correlator_eq, kept])
  | tell _ _ hcorrelator _ _ _ => exact keepsFrom_of_eq (by rw [kept, hcorrelator, kept])

/-- A move in which nothing is heard brings no order. -/
theorem keepsFrom_move {s : Switchboard Answer ρ} (ho : s.Orderly) {m : Move Answer ρ}
    (hm : m.Own) (hsilent : s.heard m = []) : KeepsFrom [] s (s.move m) := by
  obtain ⟨sent, turns, hkeeps⟩ := s.keeps_move m
  have hshift := shift_move ho hm
  rw [hsilent] at hshift
  exact keepsFrom_of_shift (orderly_move ho m).sound (hkeeps ho).2.outcomes hshift

/-- The orders that are kept in an event come from messages of their own. -/
theorem kept_occur {s : Switchboard Answer ρ} (ho : s.Orderly) (hsole : s.AllSole)
    (e : Event Answer ρ) : KeepsFrom (s.handledIn e) s (s.occur e) := by
  cases e with
  | tick instant => exact keepsFrom_move ho (m := .tick instant) trivial rfl
  | collect => exact keepsFrom_of_eq rfl
  | hush => exact keepsFrom_move ho (m := .hush) trivial rfl
  | act step =>
    by_cases hplain : step.Plain
    · have hmove := keepsFrom_move ho (m := .act step hplain) trivial rfl
      rw [occur_act_of_plain s hplain]
      cases step <;> first | exact absurd hplain id | exact hmove
    · cases step with
      | pump => exact kept_drain ho.sound hsole
      | signal x => exact kept_handle ho.sound hsole x
      | advance duration => exact keepsFrom_of_eq rfl
      | _ => exact absurd trivial hplain
  | next =>
    rw [handledIn]
    split
    · next rest hr =>
      rw [occur_next_of_ready hr]
      exact kept_drain (s := { s with ready := rest }) ho.sound hsole
    · next hr =>
      have hmove : s.move .next = s.occur .next := by
        rw [move]
        split
        · next rest heq => exact absurd heq (hr rest)
        · rfl
      exact hmove ▸ keepsFrom_move ho (m := .next) trivial rfl

/-- The orders that are kept in several events come from messages of their own, in order. -/
theorem kept_after {s : Switchboard Answer ρ} (ho : s.Orderly) {events : List (Event Answer ρ)}
    (hsole : ∀ before later, events = before ++ later → (s.after before).AllSole) :
    ∃ more, (s.after events).kept = s.kept ++ more ∧
      (more.map Order.Details.source).Sublist (s.numberedIn events) := by
  induction events generalizing s with
  | nil => exact ⟨[], (List.append_nil _).symm, List.nil_sublist _⟩
  | cons e rest ih =>
    obtain ⟨first, heq₁, hsub₁⟩ := kept_occur ho (hsole [] (e :: rest) rfl) e
    obtain ⟨more, heq₂, hsub₂⟩ := ih (ho.after [e]) fun before later heq =>
      hsole (e :: before) later (by rw [heq, List.cons_append])
    refine ⟨first ++ more, ?_, ?_⟩
    · rw [after_cons, ← List.append_assoc, ← heq₁]
      exact heq₂
    · rw [List.map_append, numberedIn]
      exact hsub₁.append hsub₂

end Switchboard

/-! ### A course -/

namespace Broker

/-- The call of the caller `k`, which tells its results apart, answers that its order was placed
under an id. -/
def Succeeds (b : Broker ρ) (deeds : List (Deed ρ)) (k : Nat) (id : Int) : Prop :=
  ∃ label request tell raw?, b.Brought deeds k (.call label (.placement request) tell) ∧
    Function.Injective tell ∧
    b.board.Answers (b.history deeds) k (tell (.ok (.placement ⟨true, some id, raw?⟩)))

section Course

variable {config : VenueConfig} {session : SessionScript} {responders : List Responder}
  {deeds : List (Deed ρ)}

/-- At any time of a course only the exchanges of orders acknowledge anything. -/
theorem allSole_course {before later : List (Event Answer ρ)}
    (heq : (start config session responders).history deeds = before ++ later) :
    ((start config session responders).board.after before).AllSole := by
  have hord := orderly_board_start (ρ := ρ) config session responders
  intro e he
  obtain ⟨c, hc, hex⟩ :=
    ((minded_board_start config session responders).after hord before).owned e he
  obtain ⟨book, hbook, -⟩ := booked_course config session responders heq
  obtain ⟨spec, herrand⟩ := Goal.exchange?_eq_some_iff.mp hex
  have hmatcher := ((hord.after before).fits hc herrand).known.matcher e he rfl
  have hline := hbook.goals c hc
  cases hg : c.goal with
  | readiness tell =>
    rw [hg, Goal.exchange?] at hex
    cases hex
  | exchange ex spec' n next =>
    rw [hg] at hline herrand
    obtain ⟨-, rfl⟩ := Prod.mk.inj (Option.some.inj herrand)
    obtain ⟨-, hhabit, -⟩ := hline
    rw [hmatcher]
    rcases hhabit with hsilent | ⟨label, request, tell, -, ⟨limits, hplaces⟩, -⟩
    · exact .inl hsilent.keeps
    · exact hplaces.sole

/-- The orders that are kept in a course come from messages of their own, in order. -/
theorem sources_course (config : VenueConfig) (session : SessionScript)
    (responders : List Responder) (deeds : List (Deed ρ)) :
    let b := start config session responders
    ((b.course deeds).board.kept.map Order.Details.source).Sublist
      (b.board.numberedIn (b.history deeds)) := by
  intro b
  have hord : b.board.Orderly := orderly_board_start config session responders
  have hsole : ∀ before later, b.history deeds = before ++ later →
      (b.board.after before).AllSole := fun before later heq => allSole_course heq
  obtain ⟨more, hmore, hsub⟩ := kept_after hord hsole
  rw [after_history_course hord] at hmore
  rw [hmore]
  exact hsub

/-- An acknowledged order belongs to one caller. -/
theorem Acknowledged.caller_eq {b : Broker ρ} (hord : b.board.Orderly) {k k' : Nat}
    {o : Outcome Answer} (h : b.Acknowledged deeds k o) (h' : b.Acknowledged deeds k' o) :
    k = k' := by
  obtain ⟨before, e, later, m, c, spec, label, request, tell, heq, rfl, -, hack⟩ := h'
  obtain ⟨n, next, hg, -⟩ := hack.goal
  exact h.owner_eq hord ⟨_, heq.symm⟩ hack.pending hack.here (by rw [hg, Goal.exchange?])

/-- Whoever has answered is gone. -/
theorem gone_of_answers {b : Broker ρ} (hord : b.board.Orderly) {k : Nat} {r : ρ}
    (h : b.board.Answers (b.history deeds) k r) :
    ∀ c ∈ (b.course deeds).board.callers, c.id ≠ k := by
  obtain ⟨before, e, later, heq, hhere, label, hleaves⟩ := h
  rw [← after_history_course hord, heq]
  exact (gone_of_leaves hord hhere hleaves later).2

/-- A call that was successful has had its order acknowledged, under the id of its answer. -/
theorem Succeeds.acknowledged {k : Nat} {id : Int}
    (h : (start config session responders).Succeeds deeds k id) :
    let b := start config session responders
    ∃ o ∈ (b.course deeds).board.correlator.outcomes, b.Acknowledged deeds k o ∧
      ∃ d, keptWith o.resolution = some d ∧ d.brokerOrderId = id := by
  intro b
  have hord : b.board.Orderly := orderly_board_start config session responders
  have hminded : b.board.Minded := minded_board_start config session responders
  have hfinal : (b.course deeds).board.Orderly := after_history_course hord deeds ▸ hord.after _
  obtain ⟨label, request, tell, raw?, hcall, hinj, hanswer⟩ := h
  have hgone := gone_of_answers hord hanswer
  rcases answers_placement hcall with ⟨c, hc, hid⟩ | ⟨result, hanswers, hresult⟩
  · exact absurd hid (hgone c hc)
  obtain rfl := hinj (Answers.unique hord hanswers hanswer)
  rcases hresult with ⟨e, he⟩ | ⟨seen, hseen⟩ |
    ⟨ex, d, before, hkept, hpre, hp, c, hc, rfl, hex⟩
  · cases he
  · cases hseen
  -- the exchange that it came to was acknowledged, and it has answered with what it was told
  -- there
  obtain ⟨o, ho, rfl, hd⟩ := (kept?_eq_some_iff hfinal).mp hkept
  obtain ⟨k, hack⟩ := exists_acknowledged ho hd
  obtain rfl := hack.owner_eq hord hpre hp hc hex
  refine ⟨o, ho, hack, d, hd, ?_⟩
  obtain ⟨before', e, later, m, c', spec, label', request', tell', heq, hid, hbrought, hk⟩ :=
    hack
  obtain ⟨profile, side, instrumentId, id', -, -, hvalue⟩ := hk.details
  have hsame :=
    ((brought_iff hord rfl rfl).mp hcall).symm.trans ((brought_iff hord rfl rfl).mp hbrought)
  obtain ⟨-, -, rfl⟩ := Deed.call.inj (Option.some.inj hsame)
  rcases hk.answers hord hminded hvalue later with ⟨a, ha, hac⟩ | htold
  · rw [← heq, after_history_course hord] at ha
    exact absurd (hac.trans hid) (hgone a ha)
  · rw [← heq, hid] at htold
    have hsuccess := hinj (Answers.unique hord htold hanswer)
    have hreport := CallReply.placement.inj (Except.ok.inj hsuccess)
    obtain rfl := Option.some.inj (PlacementReport.mk.inj hreport).2.1
    rw [hk.matched, Resolution.value?, Option.bind_some, hvalue] at hd
    rw [← Option.some.inj hd]
    rfl

end Course

/-- Two outcomes that keep orders keep them under different ids, if all orders are kept so. -/
theorem brokerOrderId_ne {s : Switchboard Answer ρ}
    (hnodup : (s.kept.map Order.Details.brokerOrderId).Nodup) {o o' : Outcome Answer}
    (ho : o ∈ s.correlator.outcomes) (ho' : o' ∈ s.correlator.outcomes) (hne : o ≠ o')
    {d d' : Order.Details} (hd : keptWith o.resolution = some d)
    (hd' : keptWith o'.resolution = some d') : d.brokerOrderId ≠ d'.brokerOrderId := by
  rw [List.Nodup, List.pairwise_map, kept, List.pairwise_filterMap] at hnodup
  have hpairs : s.correlator.outcomes.Pairwise fun o o' => ∀ d, keptWith o.resolution = some d →
      ∀ d', keptWith o'.resolution = some d' → d.brokerOrderId ≠ d'.brokerOrderId := hnodup
  have hsymm : Std.Symm fun o o' : Outcome Answer => ∀ d, keptWith o.resolution = some d → ∀ d',
      keptWith o'.resolution = some d' → d.brokerOrderId ≠ d'.brokerOrderId :=
    ⟨fun _ _ h d hd d' hd' => (h d' hd' d hd).symm⟩
  exact hpairs.forall ho ho' hne d hd d' hd'

/-- **Orders have their own messages.** The records of a course, in order, come from different
messages with an order id that were handled, in the same order, and each is kept under the id
that its message carries. So if no two of these messages carry the same id, no two records have
the same id, and no two calls that were successful have answered with the same id. -/
theorem orders_have_own_messages (config : VenueConfig) (session : SessionScript)
    (responders : List Responder) (deeds : List (Deed ρ)) :
    let b := start config session responders
    let numbered := b.board.numberedIn (b.history deeds)
    ((b.course deeds).orders.records.map (·.details.source)).Sublist numbered ∧
    ((numbered.map Prod.fst).Nodup →
      ((b.course deeds).orders.records.map (·.details.brokerOrderId)).Nodup ∧
      ∀ k k' id id', k ≠ k' → b.Succeeds deeds k id → b.Succeeds deeds k' id' → id ≠ id') := by
  intro b numbered
  have hord : b.board.Orderly := orderly_board_start config session responders
  have hsources := sources_course config session responders deeds
  have hrecords := ((faithful_start config session responders).course deeds).orders
  have hids : (b.course deeds).board.kept.map Order.Details.brokerOrderId =
      ((b.course deeds).board.kept.map Order.Details.source).map Prod.fst := by
    rw [List.map_map]
    rfl
  refine ⟨?_, fun hnodup => ?_⟩
  · have hsub := (hrecords.map Order.Details.source).trans hsources
    rwa [List.map_map] at hsub
  have hkept : ((b.course deeds).board.kept.map Order.Details.brokerOrderId).Nodup := by
    rw [hids]
    exact hnodup.sublist (hsources.map Prod.fst)
  refine ⟨?_, fun k k' id id' hne h h' => ?_⟩
  · have hsub := hkept.sublist (hrecords.map Order.Details.brokerOrderId)
    rwa [List.map_map] at hsub
  · obtain ⟨o, ho, hack, d, hd, rfl⟩ := h.acknowledged
    obtain ⟨o', ho', hack', d', hd', rfl⟩ := h'.acknowledged
    refine brokerOrderId_ne hkept ho ho' ?_ hd hd'
    rintro rfl
    exact hne (hack.caller_eq hord hack')

end Broker

namespace Service

open Broker

/-- Two orders are on their way at the same time, and messages with the given ids come. -/
def acknowledging (ids : List Int) : List (Deed CallResult) :=
  [.call "a" (.placement tenToBuy) id, .call "b" (.placement tenToBuy) id, .advance 150] ++
    ids.map fun id => .wire (.push (.object [("id", .integer id)]))

/-- Messages with different ids acknowledge orders with different ids. -/
theorem orders_told_apart :
    ((fresh.board.numberedIn (fresh.history (acknowledging [5, 6]))).map Prod.fst).Nodup ∧
      (fresh.course (acknowledging [5, 6])).orders.records.length = 2 ∧
      ((fresh.course (acknowledging [5, 6])).orders.records.map
        (·.details.brokerOrderId)).Nodup := by
  have hnodup :
      ((fresh.board.numberedIn (fresh.history (acknowledging [5, 6]))).map Prod.fst).Nodup := by
    decide +kernel
  have hlength : (fresh.course (acknowledging [5, 6])).orders.records.length = 2 := by
    decide +kernel
  exact ⟨hnodup, hlength,
    ((orders_have_own_messages {} loggedIn [] (acknowledging [5, 6])).2 hnodup).1⟩

/-- The order id that a result answers with. -/
def orderIdOf : CallResult → Option Int
  | .ok (.placement answer) => answer.orderId
  | _ => none

/-- Two messages with the same id acknowledge two orders: there are two records with that id,
and both calls have answered with it. -/
theorem order_id_is_kept_twice :
    let b := fresh.course (acknowledging [5, 5])
    b.orders.records.map (·.details.brokerOrderId) = [5, 5] ∧
      b.board.reports.map (fun r => (r.label, orderIdOf r.report)) =
        [("a", some 5), ("b", some 5)] := by
  decide +kernel

end Service

end VenueLink

import VenueLink.Proofs.Broker.OrderIds
import VenueLink.Proofs.Switchboard.Pause
import VenueLink.Proofs.Switchboard.Punctual

/-!
# Calls that stop early

A call that cannot be tried is answered at once, and nothing else comes of it: a placement whose
side cannot be told, whose amount is not positive or that finds no session, and a question for
balances without a session. A placement that has to look up its instrument first has done that
much by the time it fails; but the exchange of its order comes last, and whoever has come to
that answers what the exchange came to, never an error. So whatever the error is, no order was
on its way.

## Main results

* `call_of_answersAtOnce`: a call that cannot be tried leaves everything as it was.
* `placesNothing_of_error`: a call for a placement that answers an error has registered no
  exchange of an order, sent no order and saved no record.
* `early_exits`: both, for every state of every course.
-/

namespace VenueLink

open Exchange Exchange.Plan Switchboard

variable {ρ : Type}

namespace Broker

/-! ### Answers at once -/

/-- A caller has come and been told `r` at once, and nothing else has changed. -/
def answering (b : Broker ρ) (label : String) (r : ρ) : Broker ρ :=
  { b with board := { b.board with
      next := b.board.next + 1
      reports := b.board.reports ++ [⟨b.board.now, label, r⟩] } }

/-- The calls that cannot be tried, and what they are answered. -/
inductive AnswersAtOnce (b : Broker ρ) : Call → CallResult → Prop where
  | side {request : Order.Request} {e : OperationError}
      (hside : request.resolvedSide = .error e) :
    AnswersAtOnce b (.placement request) (.error e)
  | amount {request : Order.Request} {side : Order.Side}
    (hside : request.resolvedSide = .ok side)
    (hamount : request.amount.isPositive = false) :
    AnswersAtOnce b (.placement request) (.error (.client "amount must be positive"))
  | session {request : Order.Request} {side : Order.Side} {e : OperationError}
    (hside : request.resolvedSide = .ok side) (hamount : request.amount.isPositive = true)
    (hsession : b.session.refusal = some e) :
    AnswersAtOnce b (.placement request) (.error (sessionError e))
  | balances {kinds : List Int} {e : OperationError} (hsession : b.session.refusal = some e) :
    AnswersAtOnce b (.balances kinds) (.ok (.balances ⟨false, []⟩))

/-- A call that is answered at once launches nothing but the answer. -/
theorem AnswersAtOnce.prepare {b : Broker ρ} {c : Call} {result : CallResult}
    (h : b.AnswersAtOnce c result) : b.prepare c = (b, ⟨0, .report result⟩) := by
  cases h with
  | side hside => rw [Broker.prepare, hside]
  | amount hside hamount => simp [Broker.prepare, hside, hamount]
  | session hside hamount hsession => simp [Broker.prepare, hside, hamount, hsession]
  | balances hsession =>
    rw [Broker.prepare, hsession]
    rfl

/-- An error of a request that says no side is one of the client. -/
theorem client_of_resolvedSide {request : Order.Request} {e : OperationError}
    (h : request.resolvedSide = .error e) : ∃ detail, e = .client detail := by
  rw [Order.Request.resolvedSide] at h
  split at h
  · cases h
  · split at h
    · cases h
    · split at h
      · cases h
      · cases h
        exact ⟨_, rfl⟩

/-- Why there is no session is told as an error of the session, whatever it was. -/
theorem sessionError_eq (e : OperationError) : ∃ detail, sessionError e = .session detail := by
  cases e <;> exact ⟨_, rfl⟩

/-- A plan without exchanges does nothing but report. -/
theorem act_launch_report {s : Switchboard Answer ρ} (ho : s.Orderly) (hrest : s.Restful)
    (label : String) (r : ρ) :
    (s.act (.launch label 0 (.report r))).1 =
      { s with next := s.next + 1, reports := s.reports ++ [⟨s.now, label, r⟩] } := by
  have htimers : s.timers.filter (·.alarm.caller? != some s.next) = s.timers := by
    refine List.filter_eq_self.mpr fun t ht => bne_iff_ne.mpr fun heq => ?_
    cases ha : t.alarm with
    | announce g => simp [ha, Alarm.caller?] at heq
    | watch id => simp [ha, Alarm.caller?] at heq
    | giveUp k =>
      obtain rfl : k = s.next := by simpa [ha, Alarm.caller?] using heq
      exact Nat.lt_irrefl _ (ho.timers_lt t ht _ ha)
    | ripen k =>
      -- nobody pauses who has not come yet
      obtain rfl : k = s.next := by simpa [ha, Alarm.caller?] using heq
      have hnone := hrest.pauses_eq_nil fun c hc => Nat.ne_of_lt (ho.ids_lt c hc)
      exact absurd (mem_pauses_iff.mpr ⟨t, ht, ha, rfl⟩) (hnone ▸ List.not_mem_nil)
  have hcallers : s.callers.filter (·.id != s.next) = s.callers :=
    List.filter_eq_self.mpr fun c hc => bne_iff_ne.mpr (Nat.ne_of_lt (ho.ids_lt c hc))
  have hact : (s.act (.launch label 0 (.report r))).1 = s.enlist.finish s.next label r := rfl
  rw [hact, finish, dismiss, disarm, enlist]
  dsimp only
  rw [htimers, hcallers]

/-- Where nothing is left to do nothing happens. -/
theorem happen_of_quiet {s : Switchboard Answer ρ} (hq : s.Quiet) (n : Nat) :
    s.happen n = s := by
  cases n with
  | zero => rfl
  | succ n => rw [happen, next?_eq_none_iff.mpr hq]

/-- Where nothing is left to do, a report at once is all that happens. -/
theorem tick_report {b : Broker ρ} (ho : b.board.Orderly) (hrest : b.board.Restful)
    (hq : b.board.Quiet) (label : String) (r : ρ) :
    b.tick (.launch label 0 (.report r)) = b.answering label r := by
  have hquiet : (b.answering label r).board.Quiet := hq
  have hstep :
      (b.board.step (.launch label 0 (.report r))).1 = (b.answering label r).board := by
    have hact := act_launch_report ho hrest label r
    rw [Switchboard.step]
    dsimp only
    rw [hact, settle]
    exact happen_of_quiet hquiet _
  have hnone : acknowledged b.board (b.answering label r).board = [] := by
    rw [acknowledged, answering, List.drop_length]
    rfl
  rw [tick, hstep, hnone]
  rfl

/-- A call that cannot be tried is answered at once, and leaves everything as it was. -/
theorem call_of_answersAtOnce {b : Broker ρ} (ho : b.board.Orderly) (hrest : b.board.Restful)
    (hq : b.board.Quiet) {c : Call} {result : CallResult} (h : b.AnswersAtOnce c result)
    (label : String) (tell : CallResult → ρ) :
    b.call label c tell = b.answering label (tell result) := by
  rw [call, h.prepare]
  exact tick_report ho hrest hq label (tell result)

/-- Between two deeds nothing is left to do. -/
theorem quiet_follow {b : Broker ρ} (ho : b.board.Orderly) (hq : b.board.Quiet) (d : Deed ρ) :
    (b.follow d).board.Quiet := by
  have htick : ∀ {b : Broker ρ}, b.board.Orderly → ∀ t, (b.tick t).board.Quiet := fun ho t => by
    rw [board_tick]
    exact quiet_step ho t
  cases d with
  | call label c tell => exact htick ((b.reaches_prepare c).1.orderly ho) _
  | reply label r => exact htick ho _
  | session script => exact hq
  | stores failure => exact hq
  | upsert result =>
    rw [← after_trace_follow ho]
    exact hq
  | wire c => exact htick ho _
  | advance duration => exact htick ho _

/-- After any deeds nothing is left to do. -/
theorem quiet_course {b : Broker ρ} (ho : b.board.Orderly) (hq : b.board.Quiet)
    (deeds : List (Deed ρ)) :
    (b.course deeds).board.Quiet := by
  induction deeds generalizing b with
  | nil => exact hq
  | cons d rest ih => exact ih (orderly_follow ho d) (quiet_follow ho hq d)

/-- At the start nothing is to do. -/
theorem quiet_board_start (config : VenueConfig) (session : SessionScript)
    (responders : List Responder) : (start config session responders : Broker ρ).board.Quiet :=
  quiet_start (α := Answer) (ρ := ρ) config.transcriptCap false

/-- Nobody sits out two pauses. -/
theorem restful_course (config : VenueConfig) (session : SessionScript)
    (responders : List Responder) (deeds : List (Deed ρ)) :
    ((start config session responders).course deeds).board.Restful := by
  have hord := orderly_board_start (ρ := ρ) config session responders
  have hstart : (start config session responders : Broker ρ).board.Restful := fun _ => .inl rfl
  exact after_history_course hord deeds ▸ hstart.after hord _

/-! ### Errors after a lookup -/

/-- The exchanges that are registered in a course, each with its caller; the place in the list
is the id of the exchange. -/
def ledger (b : Broker ρ) (deeds : List (Deed ρ)) : List (Nat × Spec Answer) :=
  b.board.enrolledOver (b.history deeds)

/-- The caller `k` has nothing to do with any order: it has registered no exchange that places
one, no order on the wire is the request of an exchange of it, and what is recorded belongs to
others. -/
structure PlacesNothing (b : Broker ρ) (deeds : List (Deed ρ)) (k : Nat) : Prop where
  registered : ∀ spec, (k, spec) ∈ b.ledger deeds → Silent spec
  sent : ∀ x ∈ (b.course deeds).board.wire.sent,
    ∀ p : Order.Placement, x.frame = p.frame.toJson →
    ∀ ex, x.exchange = some ex → ∃ j spec, (b.ledger deeds)[ex]? = some (j, spec) ∧ j ≠ k
  acknowledged : ∀ o, ¬b.Acknowledged deeds k o
  saved : ∀ record ∈ (b.course deeds).orders.records, ∃ j o, j ≠ k ∧ b.Acknowledged deeds j o ∧
    keptWith o.resolution = some record.details

section Course

variable {config : VenueConfig} {session : SessionScript} {responders : List Responder}
  {deeds : List (Deed ρ)}

/-- The ledger of a course is the book of its exchanges. -/
theorem booked_ledger :
    Booked (habit (visits deeds)) ((start config session responders).ledger deeds)
    ((start config session responders).course deeds).board := by
  rw [← after_history_course (orderly_board_start config session responders)]
  exact booked_history config session responders (List.append_nil _).symm

/-- Whoever has answered an error has not come to the exchange of an order. -/
theorem silent_of_error {k : Nat} {label : String} {request : Order.Request}
    {tell : CallResult → ρ} {e : OperationError}
    (happart : ∀ report, tell (.error e) ≠ tell (.ok (.placement report)))
    (hcall : (start config session responders).Brought deeds k
      (.call label (.placement request) tell))
    (herror : (start config session responders).board.Answers
      ((start config session responders).history deeds) k (tell (.error e)))
    {spec : Spec Answer} (hline : (k, spec) ∈ (start config session responders).ledger deeds) :
    Silent spec := by
  have hord := orderly_board_start (ρ := ρ) config session responders
  have hwhole : (start config session responders).history deeds =
      (start config session responders).history deeds ++ [] := (List.append_nil _).symm
  by_contra hloud
  have hlast : ∀ n (next : Resolution Answer → Plan Answer ρ n),
      habit (visits deeds) k spec n next →
      next = fun r => .report (tell (.ok (.placement (Call.placementReport r)))) := by
    rintro n next (hsilent | ⟨label', request', tell', hvisit, -, rfl⟩)
    · exact absurd hsilent hloud
    · have hsame := ((brought_iff hord rfl rfl).mp hcall).symm.trans hvisit
      obtain ⟨-, -, rfl⟩ := Deed.call.inj (Option.some.inj hsame)
      rfl
  rcases answers_of_enrolled hlast hord (booked_start config session responders _)
      (heedful_course config session responders hwhole) hline with ⟨c, hc, hid⟩ | ⟨r, hr⟩
  · rw [after_history_course hord] at hc
    exact absurd hid (gone_of_answers hord herror c hc)
  · exact happart _ (Answers.unique hord herror hr)

/-- A call for a placement that answers an error, whatever it is, has placed nothing. -/
theorem placesNothing_of_error {k : Nat} {label : String} {request : Order.Request}
    {tell : CallResult → ρ} {e : OperationError}
    (happart : ∀ report, tell (.error e) ≠ tell (.ok (.placement report)))
    (hcall : (start config session responders).Brought deeds k
      (.call label (.placement request) tell))
    (herror : (start config session responders).board.Answers
      ((start config session responders).history deeds) k (tell (.error e))) :
    (start config session responders).PlacesNothing deeds k := by
  have hord := orderly_board_start (ρ := ρ) config session responders
  have hsilent : ∀ spec, (k, spec) ∈ (start config session responders).ledger deeds →
      Silent spec :=
    fun spec => silent_of_error happart hcall herror
  have hnone : ∀ o, ¬(start config session responders).Acknowledged deeds k o := by
    rintro o ⟨before, e', later, m, c, spec, label', request', tell', heq, rfl, hbrought, hack⟩
    obtain ⟨profile, side, instrumentId, id, -, -, hvalue⟩ := hack.details
    have hsame := ((brought_iff hord rfl rfl).mp hcall).symm.trans
      ((brought_iff hord rfl rfl).mp hbrought)
    obtain ⟨-, -, rfl⟩ := Deed.call.inj (Option.some.inj hsame)
    rcases hack.answers hord (minded_board_start config session responders) hvalue later with
      ⟨a, ha, hid⟩ | htold
    · rw [← heq, after_history_course hord] at ha
      exact gone_of_answers hord herror a ha hid
    · rw [← heq] at htold
      exact happart _ (Answers.unique hord herror htold)
  refine ⟨hsilent, fun x hx p hp ex hex => ?_, hnone, fun record hrecord => ?_⟩
  · obtain ⟨j, spec, hline, hframe⟩ := booked_ledger.frames x hx ex hex
    refine ⟨j, spec, hline, ?_⟩
    rintro rfl
    exact (hsilent spec (List.mem_of_getElem? hline)).request_ne p (hframe.symm.trans hp)
  · have hkept := ((faithful_start config session responders).course deeds).orders.subset
      (List.mem_map_of_mem hrecord)
    obtain ⟨o, ho, hd⟩ := List.mem_filterMap.mp hkept
    obtain ⟨j, hack⟩ := exists_acknowledged ho hd
    refine ⟨j, o, ?_, hack, hd⟩
    rintro rfl
    exact hnone o hack

end Course

/-- **Early exits.** In every state that a broker comes to in a course, a call that cannot be
tried is answered at once and leaves everything else as it was: with an error of the client if
no side can be told or if the amount is not positive, with an error of the session if there is
none, whatever the session says, and with no balances without a session. A call for a placement
that answers any error, be it at once or because its ticker could not be resolved, has placed
nothing: no exchange of an order was registered for it, no order was sent and no record was
saved. -/
theorem early_exits (config : VenueConfig) (session : SessionScript)
    (responders : List Responder) (deeds : List (Deed ρ)) :
    let b := start config session responders
    (∀ c result label tell, (b.course deeds).AnswersAtOnce c result →
      (b.course deeds).call label c tell = (b.course deeds).answering label (tell result)) ∧
    (∀ request : Order.Request, ∀ e, request.resolvedSide = .error e →
      ∃ detail, e = .client detail) ∧
    (∀ e, ∃ detail, sessionError e = .session detail) ∧
    ∀ k label request tell e, b.Brought deeds k (.call label (.placement request) tell) →
      (∀ report, tell (.error e) ≠ tell (.ok (.placement report))) →
      b.board.Answers (b.history deeds) k (tell (.error e)) → b.PlacesNothing deeds k := by
  intro b
  have hord : b.board.Orderly := orderly_board_start config session responders
  have hord' : (b.course deeds).board.Orderly := after_history_course hord deeds ▸ hord.after _
  refine ⟨fun c result label tell h => ?_, fun request e h => client_of_resolvedSide h,
    sessionError_eq, fun k label request tell e hcall happart herror =>
      placesNothing_of_error happart hcall herror⟩
  exact call_of_answersAtOnce hord' (restful_course config session responders deeds)
    (quiet_course hord (quiet_board_start config session responders) deeds) h label tell

end Broker

namespace Service

open Broker

/-- An order for an instrument that is named by its ticker. -/
def tickerToBuy : Order.Request :=
  { tenToBuy with instrumentId := some "EURUSD" }

/-- The ticker of an order is looked up, and nobody answers. -/
def lookingUp : List (Deed CallResult) :=
  [.call "a" (.placement tickerToBuy) id, .advance 7000]

/-- The error that a result answers with. -/
def errorOf : CallResult → Option OperationError
  | .error e => some e
  | .ok _ => none

/-- The lookup runs into its deadline; its caller is told so, and no order has been placed. -/
theorem unresolved_order_places_nothing :
    (fresh.course lookingUp).board.reports.map (fun r => (r.label, errorOf r.report)) =
        [("a", some (Call.unresolved "EURUSD" .digitalOption))] ∧
      (fresh.ledger lookingUp).length = 1 ∧ fresh.PlacesNothing lookingUp 0 := by
  let before := (fresh.history lookingUp).take 11
  let e := (fresh.history lookingUp).get ⟨11, by decide +kernel⟩
  have hsplit : fresh.history lookingUp = before ++ e :: (fresh.history lookingUp).drop 12 :=
    (List.take_append_drop 11 _).symm.trans
      (congrArg (before ++ ·) (List.drop_eq_getElem_cons _))
  have hhere : (fresh.board.after before).callers.map Caller.id = [0] := by decide +kernel
  have hgone : ((fresh.board.after before).occur e).callers.length = 0 := by decide +kernel
  have hnone : (fresh.board.after before).reports.length = 0 := by decide +kernel
  have htold :
      ((fresh.board.after before).occur e).reports.map (fun r => (r.label, errorOf r.report)) =
      [("a", some (Call.unresolved "EURUSD" .digitalOption))] := by decide +kernel
  obtain ⟨c, hcallers, hid⟩ := List.map_eq_singleton_iff.mp hhere
  obtain ⟨⟨time, label, report⟩, hreports, hreport⟩ := List.map_eq_singleton_iff.mp htold
  obtain ⟨rfl, herror⟩ := Prod.mk.inj hreport
  have hanswers : fresh.board.Answers (fresh.history lookingUp) 0
      (id (.error (Call.unresolved "EURUSD" .digitalOption))) := by
    refine ⟨before, e, _, hsplit, .inl ⟨c, by simp [hcallers], hid⟩, "a", ⟨time, ?_⟩,
      fun d hd => ?_⟩
    · rw [hreports, List.eq_nil_of_length_eq_zero hnone]
      cases report with
      | ok reply => cases herror
      | error error =>
        obtain rfl := Option.some.inj herror
        rfl
    · rw [List.eq_nil_of_length_eq_zero hgone] at hd
      exact absurd hd List.not_mem_nil
  refine ⟨by decide +kernel, by decide +kernel, ?_⟩
  exact (early_exits {} loggedIn [] lookingUp).2.2.2 0 "a" tickerToBuy id _
    ⟨[], [.advance 7000], rfl, rfl⟩ (fun report heq => by cases heq) hanswers

end Service

end VenueLink

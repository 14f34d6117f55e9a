import VenueLink.Proofs.Broker.Ledger

/-!
# The answer of a question for the state of an order

A caller that asks for the state of an order asks once, and any message that names the order is
its answer, unless an exchange that was registered earlier keeps the message to itself. Which
exchanges these are changes all the time: others come and go, take some of the messages that
name the order and pass on others. But the first message that gets to the exchange ends it, so
the call has succeeded with that message and no other; and a call whose exchange has got such a
message does succeed.

## Main results

* `status_is_of_first_naming`: what a question for the state of an order comes to, in every
  course.
-/

namespace VenueLink

open Exchange Exchange.Plan Switchboard

variable {ρ : Type}

namespace Broker

/-- At a moment of the course the message is offered to the open exchanges, and gets to the
exchange `ex`: it names the order, and no exchange that is open and was registered earlier takes
it for itself or sees a refusal in it. -/
def Names (b : Broker ρ) (deeds : List (Deed ρ)) (before : List (Event Answer ρ)) (n : Nat)
    (m : Json) (ex : Nat) (id : Int) : Prop :=
  b.board.Meets (b.history deeds) before n m ex (Answer.toStatus id)

/-- The caller `k` has asked for the state of the order `id` with the exchange `ex`, and with no
other. -/
structure AsksState (b : Broker ρ) (deeds : List (Deed ρ)) (k : Nat) (id : Int)
    (tell : CallResult → ρ) (ex : Nat) : Prop where
  line : linesOf k 0 (b.ledger deeds) =
    [(ex, Call.spec .orderChanges (Answer.toStatus id) b.config.limits.orderStatus)]
  /-- A call that succeeds answers the one message that gets to its exchange. -/
  answered : ∀ r, b.board.Answers (b.history deeds) k r → ∃ report : StatusReport,
    r = tell (.ok (.status report)) ∧ (report.success = true →
      ∃ before n, b.Names deeds before n report.raw ex id ∧ ∀ before' n' m',
        b.Names deeds before' n' m' ex id → before' = before ∧ n' = n ∧ m' = report.raw)
  /-- A call whose exchange a message gets to succeeds with it, as soon as its request has been
  delivered or its deadline has come. -/
  succeeds : ∀ before n m, b.Names deeds before n m ex id →
    b.board.Answers (b.history deeds) k (tell (.ok (.status ⟨true, m⟩))) ∨
      (b.course deeds).board.EnRoute ex
  /-- Nothing else ends the exchange but its deadline and the loss of the connection. -/
  ended : ∀ o, (b.course deeds).board.correlator.outcome? ex = some o →
    (∃ before n m seen, b.Names deeds before n m ex id ∧
      o.resolution = .matched ⟨.message m, m, seen⟩) ∨
    (∃ seen, o.resolution = .failed ⟨.timeout, seen⟩ ∧
      (b.course deeds).board.correlator.deadline? ex = some o.time) ∨
    ∃ seen, o.resolution = .failed ⟨.connectionLost, seen⟩

/-- A question for the state of an order that can be tried is a plan of one exchange. -/
theorem prepare_status (b : Broker ρ) {id : Int} (hid : 0 < id) :
    b.prepare (.status id) = (b.syncHandshake, ⟨1, Call.statusPlan b.config.limits id⟩) :=
  if_neg (Int.not_le.mpr hid)

section Course

variable {config : VenueConfig} {session : SessionScript} {responders : List Responder}
  {deeds : List (Deed ρ)} {k : Nat} {label : String} {id : Int} {tell : CallResult → ρ}

/-- A call for the state of an order has an exchange. -/
theorem exists_asksState (hid : 0 < id)
    (hcall : (start config session responders).Brought deeds k
      (.call label (.status id) tell)) :
    ∃ ex, (start config session responders).AsksState deeds k id tell ex := by
  have hord := orderly_board_start (ρ := ρ) config session responders
  obtain ⟨b, rfl, htrod⟩ := trod_of_brought hcall
  rw [b.prepare_status hid] at htrod
  have honce : Trod _ _ _ k (.exchange (Call.spec .orderChanges (Answer.toStatus id)
      b.config.limits.orderStatus)
        fun r => (.report (tell (.ok (.status (Call.statusReport r)))) :
        Plan Answer ρ 0)) := htrod
  obtain ⟨ex, hlines, -⟩ := honce.once
  have hmem := hlines ▸ List.mem_singleton_self _
  have hended := fun {o} => met_or_failed (mem_linesOf.mp hmem) (fun _ => rfl) (o := o)
  refine ⟨ex, hlines, fun r hr => ?_, fun before n m hnames => ?_, fun o hout => hended hout⟩
  · obtain ⟨ex', resolution, hlines', hresolved, rfl⟩ := once_of_answers honce hr
    obtain ⟨rfl, -⟩ := Prod.mk.inj (List.cons.inj (hlines'.symm.trans hlines)).1
    refine ⟨_, rfl, fun hsuccess => ?_⟩
    obtain ⟨o, hout, rfl⟩ := resolution?_eq_some_iff.mp hresolved
    rcases hended hout with ⟨before, n, m, seen, hmeets, hmatched⟩ | ⟨seen, hfailed, -⟩ |
      ⟨seen, hfailed⟩
    · rw [hmatched]
      refine ⟨before, n, hmeets, fun before' n' m' hmeets' => ?_⟩
      obtain ⟨rfl, rfl, rfl⟩ := hmeets'.unique hord hmeets
      exact ⟨rfl, rfl, rfl⟩
    · rw [hfailed] at hsuccess
      cases hsuccess
    · rw [hfailed] at hsuccess
      cases hsuccess
  · obtain ⟨seen, hresolved⟩ := resolution?_of_meets hnames
    exact honce.answers_or_enRoute orderly_course minded_course
      (quiet_course hord (quiet_board_start _ _ _) deeds) hmem hresolved

/-- Whatever is done after that, a question for the state of an order has the same exchange. -/
theorem AsksState.exchange_eq {more : List (Deed ρ)} {ex ex' : Nat}
    (h : (start config session responders).AsksState deeds k id tell ex)
    (h' : (start config session responders).AsksState (deeds ++ more) k id tell ex') :
    ex = ex' := by
  have hline := mem_linesOf.mp (h.line ▸ List.mem_singleton_self _)
  have hmem :=
    mem_linesOf.mpr ((ledger_append _ deeds more).symm ▸ getElem?_append_of_eq_some hline _)
  rw [h'.line] at hmem
  exact (Prod.mk.inj (List.mem_singleton.mp hmem)).1

end Course

/-- **The state of an order.** In every course, whatever else is asked and whatever comes in, a
question for the state of an order runs one exchange. If it succeeds, then with the first
message that has got to the exchange, that is a message that names the order and that no
exchange registered earlier has kept to itself; there is no other. If there is such a message,
it succeeds, at its deadline at the latest. The exchange stays open until then, unless its
deadline comes or the connection is lost. -/
theorem status_is_of_first_naming (config : VenueConfig) (session : SessionScript)
    (responders : List Responder) (deeds : List (Deed ρ)) {k : Nat} {label : String} {id : Int}
    {tell : CallResult → ρ} (hid : 0 < id)
    (hcall : (start config session responders).Brought deeds k
      (.call label (.status id) tell)) :
    let b := start config session responders
    ∃ ex, b.AsksState deeds k id tell ex ∧ ∀ before n m, b.Names deeds before n m ex id →
      ∃ duration, b.board.Answers (b.history (deeds ++ [.advance duration])) k
        (tell (.ok (.status ⟨true, m⟩))) := by
  intro b
  obtain ⟨ex, hasks⟩ := exists_asksState hid hcall
  refine ⟨ex, hasks, fun before n m hnames => ?_⟩
  obtain ⟨duration, hlapsed⟩ :=
    exists_lapsed (mem_linesOf.mp (hasks.line ▸ List.mem_singleton_self _))
  obtain ⟨ex', hasks'⟩ := exists_asksState hid (hcall.append [.advance duration])
  obtain rfl := hasks.exchange_eq hasks'
  exact ⟨duration, (hasks'.succeeds before n m (meets_append hnames _)).resolve_right
    fun h => h.not_lapsed hlapsed⟩

end Broker

namespace Service

open Broker

/-- The state of an order is asked for while an order is on its way, and two messages come in
that name the order. -/
def askingBehind : List (Deed CallResult) :=
  [.call "a" (.placement tenToBuy) id, .call "b" (.status 5) id, .advance 150,
    .wire (.push receipt), .wire (.push receipt)]

/-- The state of an order that a result answers. -/
def stateOf : CallResult → Option StatusReport
  | .ok (.status state) => some state
  | _ => none

/-- The order on its way takes the first message for its acknowledgement, and the second one is
the state of the order. -/
theorem second_receipt_is_state :
    (fresh.course (askingBehind.take 4)).board.reports.map (·.label) = ["a"] ∧
      (fresh.course askingBehind).board.reports.map (fun r => (r.label, stateOf r.report)) =
        [("a", none), ("b", some ⟨true, receipt⟩)] ∧
      ∃ ex, fresh.AsksState askingBehind 1 5 id ex ∧ ∀ before n m,
        fresh.Names askingBehind before n m ex 5 → ∃ duration, fresh.board.Answers
          (fresh.history (askingBehind ++ [.advance duration])) 1
            (.ok (.status ⟨true, m⟩)) := by
  have hbrought : fresh.Brought askingBehind 1 (.call "b" (.status 5) id) :=
    ⟨askingBehind.take 1, askingBehind.drop 2, rfl, by decide +kernel⟩
  exact ⟨by decide +kernel, by decide +kernel,
    status_is_of_first_naming {} loggedIn [] askingBehind (by decide) hbrought⟩

end Service

end VenueLink

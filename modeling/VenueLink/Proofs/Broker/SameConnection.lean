import VenueLink.Proofs.Broker.Placement
import VenueLink.Proofs.Switchboard.Endings
import VenueLink.Proofs.Switchboard.Reopening

/-!
# The connection of a request and of its answer

An exchange whose request has been sent and that is still open was sent on the latest
connection, since the end of a connection fails all exchanges that are open, and messages of
earlier connections are passed over. So an exchange is answered on the connection that its
request was sent on, provided that the request was sent first. A request may be sent after the
answer, and then it may go over a later connection.

## Main results

* `traced_play`: open exchanges whose requests have been sent were sent on the latest
  connection.
* `answered_play`: whatever answers an exchange is a message of the latest connection.
* `answered_where_sent`: an exchange is not answered on another connection than the one that its
  request had been sent on.
* `answered_order_crosses_over`: an order that is answered early is sent on the next connection.
-/

namespace VenueLink

open Exchange Correlator

namespace Switchboard

variable {α ρ : Type}

/-! ### Where requests have been sent -/

/-- Every open exchange whose request has been sent was sent on the latest connection, which is
open. -/
def Traced (s : Switchboard α ρ) : Prop :=
  ∀ x ∈ s.wire.sent, ∀ ex, x.exchange = some ex → ex ∈ s.correlator.pendingIds →
    s.link.phase = .opened ∧ x.generation = s.link.generation

/-- A request on the wire has been sent. -/
theorem mem_requests_of_sent {s : Switchboard α ρ} {x : Sent} (hx : x ∈ s.wire.sent) {ex : Nat}
    (hex : x.exchange = some ex) : ex ∈ s.requests :=
  List.mem_filterMap.mpr ⟨x, hx, hex⟩

/-- A link that is open when it hears a signal stays so if an exchange does. -/
theorem opened_handle_of_pending {s : Switchboard α ρ} (hs : s.correlator.Sound)
    (hopen : s.link.phase = .opened) {x : Signal} {ex : Nat}
    (hp : ex ∈ (s.handle x).correlator.pendingIds) : (s.handle x).link.phase = .opened := by
  rw [phase_handle, hopen]
  cases x with
  | message g payload => rfl
  | opened g =>
    rw [phaseAfter]
    split <;> rfl
  | closed g reason =>
    -- nothing is open after the end of the latest connection
    by_cases hg : g = s.link.generation
    · rw [hg, pendingIds, (handle_closed_fails hs reason).1] at hp
      exact absurd hp List.not_mem_nil
    · exact if_neg hg

section Shift

variable {s s' : Switchboard α ρ} {xs : List Signal} (h : Shift s xs s') (hin : s.InTune)
include h hin

/-- An open link stays as it is if an exchange stays open. -/
theorem Shift.opened (hs : s.correlator.Sound) (hopen : s.link.phase = .opened) {ex : Nat}
    (hp : ex ∈ s'.correlator.pendingIds) :
    s'.link.phase = .opened ∧ s'.link.generation = s.link.generation := by
  cases h with
  | turn hattuned htries _ _ =>
    have hcalm := htries.calm_of_opened (hattuned hin) hopen
    exact ⟨hcalm.phase_eq.trans hopen, hcalm.generation_eq⟩
  | hangUp reason =>
    rw [link_hear]
    exact ⟨hopen, rfl⟩
  | tell hlink _ _ _ _ _ =>
    rw [hlink]
    exact ⟨hopen, rfl⟩
  | @hear y rest hinbox =>
    exact ⟨opened_handle_of_pending (s := { s with inbox := rest }) hs hopen hp,
      generation_handle { s with inbox := rest } y⟩

end Shift

/-- A move keeps track of the connections, if its signals come from the transport. -/
theorem traced_move {s : Switchboard α ρ} (ho : s.Orderly) (hin : s.InTune) (h : s.Traced)
    {m : Move α ρ} (hm : m.Own) : (s.move m).Traced := by
  intro x hx ex hex hp
  have hshift := shift_move ho hm
  rcases hshift.sent hin hx with hold | hnew
  · have hlt := ho.requests_lt ex (mem_requests_of_sent hold hex)
    obtain ⟨hopen, hgeneration⟩ := h x hold ex hex (pending_of_move ho m hlt hp)
    obtain ⟨hopen', hgeneration'⟩ := hshift.opened hin ho.sound hopen hp
    exact ⟨hopen', hgeneration.trans hgeneration'.symm⟩
  · exact hnew

/-- In every state of a play the open exchanges whose requests have been sent were sent on the
latest connection. -/
theorem traced_play (cap : Nat) (manual : Bool) {moves : List (Move α ρ)}
    (hmoves : ∀ m ∈ moves, m.Own) :
    ((start cap manual : Switchboard α ρ).play moves).Traced := by
  refine play_induction cap manual (motive := fun _ s => s.Traced)
    (fun _ hx => absurd hx List.not_mem_nil) ?_ hmoves
  intro before m s ho hin hm h
  exact traced_move ho hin h hm

/-! ### What answers an exchange -/

/-- The exchange was answered, be it with a refusal. -/
def Answered (r : Resolution α) : Prop :=
  ∀ f, r = .failed f → f.cause = .rejected

/-- An exchange that is answered when a signal is handled is open before, and the signal is a
message of the latest connection. -/
theorem answering_handle {s : Switchboard α ρ} (hs : s.correlator.Sound) {x : Signal} {ex : Nat}
    (hnone : s.correlator.outcome? ex = none) {o : Outcome α}
    (hend : (s.handle x).correlator.outcome? ex = some o) (hanswered : Answered o.resolution) :
    ex ∈ s.correlator.pendingIds ∧ ∃ payload, x = .message s.link.generation payload := by
  have hnew : s.correlator.outcome? ex ≠ some o := by simp [hnone]
  by_cases hx : x.generation = s.link.generation
  · cases x with
    | message g payload =>
      obtain rfl : g = s.link.generation := hx
      refine ⟨?_, payload, rfl⟩
      rw [handle_message, correlator_dispatch] at hend
      rcases (ends_dispatch hs s.now payload).outcome?_cases hend with hsame | ⟨-, hmem, rfl⟩
      · exact absurd hsame hnew
      · exact (ends_dispatch hs s.now payload).mem_pending_of_mem hmem
    | opened g =>
      obtain rfl : g = s.link.generation := hx
      rw [correlator_handle_opened] at hend
      exact absurd hend hnew
    | closed g reason =>
      obtain rfl : g = s.link.generation := hx
      rw [correlator_handle_closed] at hend
      rcases (ends_failAll hs s.now .connectionLost).outcome?_cases hend with hsame |
        ⟨-, hmem, -⟩
      · exact absurd hsame hnew
      · obtain ⟨e, -, rfl⟩ := List.mem_map.mp hmem
        exact absurd (hanswered _ rfl) (by simp)
  · rw [handle_of_ne hx] at hend
    exact absurd hend hnew

/-- An exchange that is answered in a move is open before, and the move handles a message of the
latest connection. -/
theorem answering_move {s : Switchboard α ρ} (ho : s.Orderly) {m : Move α ρ} (hm : m.Own)
    {ex : Nat} (hnone : s.correlator.outcome? ex = none) {o : Outcome α}
    (hend : (s.move m).correlator.outcome? ex = some o) (hanswered : Answered o.resolution) :
    ex ∈ s.correlator.pendingIds ∧
      ∃ payload, s.heard m = [.message s.link.generation payload] := by
  have hnew : s.correlator.outcome? ex ≠ some o := by simp [hnone]
  have hshift := shift_move ho hm
  generalize s.move m = s' at hshift hend
  generalize s.heard m = xs at hshift ⊢
  cases hshift with
  | turn _ _ hu _ =>
    rcases hu ex o hend with hsame | ⟨f, hf, hcause⟩
    · exact absurd hsame hnew
    · exact absurd (hanswered f hf) hcause
  | hangUp reason =>
    rw [(aside_hear _ _).correlator_eq] at hend
    exact absurd hend hnew
  | tell _ _ hcorrelator _ _ => exact absurd (hcorrelator ▸ hend) hnew
  | @hear y rest hinbox =>
    obtain ⟨hp, payload, rfl⟩ :=
      answering_handle (s := { s with inbox := rest }) ho.sound hnone hend hanswered
    exact ⟨hp, payload, rfl⟩

/-- **What answers an exchange.** An exchange that was answered in a play was answered in one of
its moves, by a message of the latest connection; the exchange was open until then. -/
theorem answered_play (cap : Nat) (manual : Bool) {moves : List (Move α ρ)}
    (hmoves : ∀ m ∈ moves, m.Own) {ex : Nat} {r : Resolution α}
    (hr : ((start cap manual).play moves).resolution? ex = some r) (hanswered : Answered r) :
    ∃ before m later, moves = before ++ m :: later ∧
      ex ∈ ((start cap manual : Switchboard α ρ).play before).correlator.pendingIds ∧
      (∃ payload, ((start cap manual).play before).heard m =
        [.message ((start cap manual).play before).link.generation payload]) ∧
      (((start cap manual).play before).move m).resolution? ex = some r := by
  refine play_induction cap manual (motive := fun moves s => s.resolution? ex = some r →
    ∃ before m later, moves = before ++ m :: later ∧
      ex ∈ ((start cap manual : Switchboard α ρ).play before).correlator.pendingIds ∧
      (∃ payload, ((start cap manual).play before).heard m =
        [.message ((start cap manual).play before).link.generation payload]) ∧
      (((start cap manual).play before).move m).resolution? ex = some r) (fun h => by
        cases h) ?_
    hmoves hr
  intro before m s ho hin hm ih hr
  obtain ⟨o, hend, rfl⟩ := resolution?_eq_some_iff.mp hr
  cases hfirst : s.correlator.outcome? ex with
  | none =>
    obtain ⟨hp, hheard⟩ := answering_move ho hm hfirst hend hanswered
    exact ⟨before, m, [], rfl, hp, hheard, hr⟩
  | some o' =>
    obtain rfl := Option.some.inj ((outcome?_move_mono ho m hfirst).symm.trans hend)
    obtain ⟨before', m', later, rfl, hrest⟩ :=
      ih (resolution?_eq_some_iff.mpr ⟨o', hfirst, rfl⟩)
    exact ⟨before', m', later ++ [m], by simp, hrest⟩

/-- **The connection of a request and of its answer.** In every state of a play the open
exchanges whose requests have been sent were sent on the latest connection, which is open. The
end of that connection fails every open exchange with what it has seen, and a message of another
connection changes nothing. An exchange that was answered was open when it was, by a message of
the connection that was the latest then, and if its request had been sent by then, it was sent
on that connection. -/
theorem answered_where_sent (cap : Nat) (manual : Bool) {moves : List (Move α ρ)}
    (hmoves : ∀ m ∈ moves, m.Own) :
    let s := (start cap manual).play moves
    (∀ x ∈ s.wire.sent, ∀ ex, x.exchange = some ex → ex ∈ s.correlator.pendingIds →
      s.link.phase = .opened ∧ x.generation = s.link.generation) ∧
    (∀ reason, let closed := s.handle (.closed s.link.generation reason)
      closed.correlator.entries = [] ∧ ∀ e ∈ s.correlator.entries,
        closed.correlator.outcome? e.id =
          some ⟨e.id, s.now, .failed ⟨.connectionLost, e.transcript⟩⟩) ∧
    (∀ g payload, g ≠ s.link.generation → s.handle (.message g payload) = s) ∧
    ∀ ex r, s.resolution? ex = some r → (∀ f, r = .failed f → f.cause = .rejected) →
      ∃ before m later, moves = before ++ m :: later ∧
        let u := (start cap manual).play before
        ex ∈ u.correlator.pendingIds ∧ (u.move m).resolution? ex = some r ∧
        (∃ payload, u.heard m = [.message u.link.generation payload]) ∧
        ∀ x ∈ u.wire.sent, x.exchange = some ex → x.generation = u.link.generation := by
  have ho := orderly_play
    (orderly_start cap manual : (start cap manual : Switchboard α ρ).Orderly)
    moves
  refine ⟨traced_play cap manual hmoves, handle_closed_fails ho.sound, fun g payload hg => ?_,
    fun ex r hr hanswered => ?_⟩
  · exact handle_of_ne hg
  · obtain ⟨before, m, later, rfl, hp, hheard, hend⟩ :=
      answered_play cap manual hmoves hr hanswered
    have htraced := traced_play cap manual (α := α) (ρ := ρ) fun m' hm' =>
      hmoves m' (List.mem_append_left _ hm')
    exact ⟨before, m, later, rfl, hp, hend, hheard, fun x hx hex => (htraced x hx ex hex hp).2⟩

/-- An exchange that takes any message for its answer. -/
def question : Spec Unit where
  request := .string "question"
  matcher := { accepts := fun _ => true, answer := fun _ => () }
  timeout := 4000
  settle := 0

/-- A caller connects and sends its request. -/
def asking : List (Move Unit Unit) :=
  [.act (.launch "caller" 1 (.exchange question fun _ => .report ())) trivial, .next, .next,
    .deliver, .next]

/-- The venue sends a message. -/
def answering : List (Move Unit Unit) :=
  [.act (.wire (.push (.string "answer"))) trivial, .next, .deliver]

/-- The request goes over the first connection, and so does its answer. -/
theorem question_is_answered_where_sent :
    let s := (start 5 false).play asking
    let t := (start 5 false).play (asking ++ answering)
    (0 ∈ s.correlator.pendingIds ∧ 0 ∈ s.requests ∧
      ∀ x ∈ s.wire.sent, ∀ ex, x.exchange = some ex → ex ∈ s.correlator.pendingIds →
        s.link.phase = .opened ∧ x.generation = s.link.generation) ∧
    t.resolution? 0 = some (.matched ⟨(), .string "answer", [.string "answer"]⟩) ∧
      ∃ before m later, asking ++ answering = before ++ m :: later ∧
        let u := (start 5 false).play before
        0 ∈ u.correlator.pendingIds ∧
        (u.move m).resolution? 0 = some (.matched ⟨(), .string "answer", [.string "answer"]⟩) ∧
        (∃ payload, u.heard m = [.message u.link.generation payload]) ∧
        ∀ x ∈ u.wire.sent, x.exchange = some 0 → x.generation = u.link.generation := by
  have hasking : ∀ m ∈ asking, m.Own := by simp [asking, Move.Own]
  have hall : ∀ m ∈ asking ++ answering, m.Own := by simp [asking, answering, Move.Own]
  have hpending : 0 ∈ ((start 5 false).play asking).correlator.pendingIds := by decide +kernel
  have hsent : 0 ∈ ((start 5 false).play asking).requests := by decide +kernel
  have hanswered : ((start 5 false).play (asking ++ answering)).resolution? 0 =
      some (.matched ⟨(), .string "answer", [.string "answer"]⟩) := by decide +kernel
  exact ⟨⟨hpending, hsent, (answered_where_sent 5 false hasking).1⟩, hanswered,
    (answered_where_sent 5 false hall).2.2.2 0 _ hanswered fun _ heq => by cases heq⟩

end Switchboard

namespace Service

/-- An order is acknowledged in the pause after the handshake, on the first connection. The
connection breaks, another call opens the second one, and at the end of the pause the order is
sent over that. -/
theorem answered_order_crosses_over :
    let answered := ordering [.wire (.push receipt)]
    let s := ordering [.wire (.push receipt), .wire (.close "reset"), .call "b" (.status 7),
      .advance 150]
    answered.board.link.generation = 1 ∧ answered.board.requests = [] ∧
      (answered.board.resolution? 0).map Resolution.phaseName = some "Resolved" ∧
      s.placements = [⟨true, some 5, some receipt⟩] ∧
      (s.board.wire.sent.filter (·.exchange = some 0)).map Sent.generation = [2] := by
  decide +kernel

end Service

end VenueLink

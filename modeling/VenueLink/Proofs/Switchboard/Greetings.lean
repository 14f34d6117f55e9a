import VenueLink.Proofs.Switchboard.Attuned
import VenueLink.Proofs.Switchboard.Book

/-!
# Frames that are no requests

What goes over the wire without being the request of an exchange is the handshake of the link,
which is sent when a connection opens and again to a connection that was open before. So if the
handshakes that the link is given have a property, then all such frames have it. `Greets` is
that as an invariant: each operation keeps the handshake of the link, and sends nothing else on
its own account.

## Main results

* `Greets.transmit`: a frame that is sent is a request, or has the property.
* `Turn.greets`, `Greets.drain`: callers and signals send only what has the property.
* `Greets.occur`, `Greets.after`: the invariant holds as long as only such handshakes are set.
-/

namespace VenueLink.Switchboard

open Exchange

variable {α ρ : Type}

/-- The handshake of the link has a property, and so has whatever was sent that is no request.
-/
structure Greets (P : Json → Prop) (s : Switchboard α ρ) : Prop where
  handshake : ∀ frame, s.link.handshake = some frame → P frame
  sent : ∀ x ∈ s.wire.sent, x.exchange = none → P x.frame

section Greets

variable {P : Json → Prop} {s s' : Switchboard α ρ}

/-- Neither the handshake nor what was sent is touched. -/
theorem Greets.of_eq (h : Greets P s) (hlink : s'.link.handshake = s.link.handshake)
    (hsent : s'.wire.sent = s.wire.sent) : Greets P s' :=
  ⟨hlink ▸ h.handshake, hsent ▸ h.sent⟩

/-! ### Sending -/

/-- Signals are taken in. -/
theorem Greets.hear (h : Greets P s) (signals : List Signal) : Greets P (s.hear signals) :=
  h.of_eq (by rw [link_hear]) (by rw [wire_hear])

/-- A frame is sent over the wire that is a request, or has the property. -/
theorem Greets.send (h : Greets P s) {exchange : Option Nat} {frame : Json} {w : Wire}
    {signals : List Signal} (hsend : s.wire.send s.now exchange frame = .ok (w, signals))
    (hframe : exchange = none → P frame) : Greets P ({ s with wire := w }.hear signals) := by
  rw [Wire.send] at hsend
  split at hsend
  · cases hsend
    have hsent : Greets P { s with
        wire := { s.wire with
          sent := s.wire.sent ++ [⟨frame, s.now, s.wire.connection.getD 0, exchange⟩] } } := by
      refine ⟨h.handshake, fun x hx hnone => ?_⟩
      rcases List.mem_append.mp hx with hold | hnew
      · exact h.sent x hold hnone
      · obtain rfl := List.mem_singleton.mp hnew
        exact hframe hnone
    exact hsent.hear _
  · cases hsend

/-- A frame is sent that has the property, unless it is a request. -/
theorem Greets.transmit (h : Greets P s) {exchange : Option Nat} {frame : Json}
    (ht : s.transmit exchange frame = .ok s') (hframe : exchange = none → P frame) :
    Greets P s' := by
  obtain ⟨-, w, signals, hsend, rfl⟩ := exists_send_of_transmit ht
  exact h.send hsend hframe

/-- The handshake is sent. -/
theorem Greets.greet (h : Greets P s) : Greets P s.greet := by
  rw [Switchboard.greet]
  split
  · exact h
  · next handshake hhandshake =>
    split
    · next hsend => exact h.send hsend fun _ => h.handshake handshake hhandshake
    · exact h

/-! ### The turn of a caller -/

/-- Callers are woken. -/
theorem Greets.wakeWhere (h : Greets P s) (p : Caller α ρ → Bool) : Greets P (s.wakeWhere p) :=
  h.of_eq (by rw [link_wakeWhere]) (by rw [wire_wakeWhere])

/-- Those who wait for exchanges are woken. -/
theorem Greets.foldl_wakeWaiting (h : Greets P s) (ids : List Nat) :
    Greets P (ids.foldl wakeWaiting s) := by
  induction ids generalizing s with
  | nil => exact h
  | cons id rest ih => exact ih (h.wakeWhere _)

/-- An attempt that is given up leaves the handshake. -/
theorem handshake_abandon (l : Link) (g : Nat) : (l.abandon g).handshake = l.handshake := by
  rw [Link.abandon]
  split <;> rfl

/-- A caller sends nothing but requests and handshakes. -/
theorem Motion.greets {k : Nat} {errand : Option (Nat × Spec α)} (hm : Motion k errand s s')
    (h : Greets P s) : Greets P s' := by
  cases hm with
  | greet hframe ht => exact h.transmit ht fun _ => h.handshake _ hframe
  | request ht => exact h.transmit ht fun hnone => by cases hnone
  | connect _ g => exact h.of_eq (by rw [link_announce]) (by rw [wire_announce])
  | abandon _ g =>
      exact h.of_eq (by rw [link_abandon, handshake_abandon]) (by rw [wire_abandon])
  | _ => exact ⟨h.handshake, h.sent⟩

/-- A part of a turn sends nothing but handshakes and requests. -/
theorem TurnPart.greets {k : Nat} (hp : TurnPart k s s') (h : Greets P s) : Greets P s' := by
  cases hp with
  | motion hm => exact hm.greets h
  | _ => exact ⟨h.handshake, h.sent⟩

/-- And so does a turn. -/
theorem Turn.greets {k : Nat} (ht : Turn k s s') (h : Greets P s) : Greets P s' := by
  induction ht with
  | refl => exact h
  | tail _ hlast ih => exact hlast.greets ih

/-- A new number is given out. -/
theorem Greets.enlist (h : Greets P s) : Greets P s.enlist :=
  ⟨h.handshake, h.sent⟩

/-! ### Signals -/

/-- A link that opens keeps its handshake. -/
theorem handshake_opened (l : Link) (g : Nat) : (l.opened g).handshake = l.handshake := by
  rw [Link.opened]
  split <;> rfl

/-- So does one that closes. -/
theorem handshake_closed (l : Link) (g : Nat) : (l.closed g).handshake = l.handshake := by
  rw [Link.closed]
  split <;> rfl

/-- A message is offered to the open exchanges. -/
theorem Greets.dispatch (h : Greets P s) (m : Json) : Greets P (s.dispatch m) := by
  have hended : Greets P { s with
      correlator := (s.correlator.dispatch s.now m).1
      wire := { s.wire with
        pruned := s.wire.pruned ++ (s.correlator.dispatch s.now m).2.pruned } } :=
    ⟨h.handshake, h.sent⟩
  exact hended.foldl_wakeWaiting _

/-- All open exchanges fail. -/
theorem Greets.failAll (h : Greets P s) : Greets P s.failAll := by
  have hfailed :
      Greets P { s with correlator := (s.correlator.failAll s.now .connectionLost).1 } :=
    ⟨h.handshake, h.sent⟩
  exact hfailed.foldl_wakeWaiting _

/-- A signal is handled. -/
theorem Greets.handle (h : Greets P s) (signal : Signal) : Greets P (s.handle signal) := by
  simp only [Switchboard.handle]
  split
  · exact h
  · cases signal with
    | opened g =>
      have hopened : Greets P { s.greet with link := s.greet.link.opened g } :=
        h.greet.of_eq (handshake_opened _ g) rfl
      exact hopened.wakeWhere _
    | message g payload => exact h.dispatch payload
    | closed g reason =>
      have hclosed : Greets P { s with link := s.link.closed g } :=
        h.of_eq (handshake_closed _ g) rfl
      exact (hclosed.wakeWhere _).failAll

/-- The signals that have been taken in are handled. -/
theorem Greets.sift (h : Greets P s) : Greets P s.sift := by
  have hfold : ∀ (signals : List Signal) {s : Switchboard α ρ}, Greets P s →
      Greets P (signals.foldl Switchboard.handle s) := by
    intro signals
    induction signals with
    | nil => exact fun h => h
    | cons x rest ih => exact fun h => ih (h.handle x)
  exact hfold s.inbox ⟨h.handshake, h.sent⟩

/-- And those that come in meanwhile. -/
theorem Greets.drain (h : Greets P s) : Greets P s.drain :=
  ⟨h.sift.sift.handshake, h.sift.sift.sent⟩

/-! ### Events -/

/-- A handshake that is set in the event has the property, and so has a frame that is sent. -/
def Event.Greets (P : Json → Prop) : Event α ρ → Prop
  | .act (.setHandshake handshake) => ∀ frame, handshake = some frame → P frame
  | .act (.transmit frame) => P frame
  | _ => True

/-- An action sends what has the property, if it says so. -/
theorem Greets.act (h : Greets P s) {step : Step α ρ} (he : (Event.act step).Greets P) :
    Greets P (s.occur (.act step)) := by
  cases step with
  | wire c =>
    have hcontrol : Greets P { s with wire := (s.wire.control c).1 } :=
      h.of_eq rfl (sent_control s.wire c)
    exact hcontrol.hear _
  | setHandshake handshake => exact ⟨he, h.sent⟩
  | launch label n plan => exact (s.enlist.turn_pursue s.next label plan).greets h.enlist
  | ensureOpen label tell => exact (s.turn_ensureOpen label tell).greets h.enlist
  | listen label m timeout tell => exact ⟨h.handshake, h.sent⟩
  | cancel label =>
    change Greets P (s.cancel label)
    rw [cancel]
    split
    · next c _ =>
      have hstop := (s.motions_stopAt c.id none c.stage).turn.greets h
      exact ⟨hstop.handshake, hstop.sent⟩
    · exact h
  | transmit frame =>
    change Greets P (s.act (.transmit frame)).1
    rw [Switchboard.act]
    cases ht : s.transmit none frame with
    | error e => exact h
    | ok s' => exact h.transmit ht fun _ => he
  | pump => exact h.drain
  | signal x => exact h.handle x
  | advance duration => exact h

/-- So does what happens next. -/
theorem Greets.next (h : Greets P s) : Greets P (s.occur .next) := by
  cases hr : s.ready with
  | nil =>
    rw [occur_next_of_nil hr]
    exact ⟨h.handshake, h.sent⟩
  | cons t rest =>
    have hpop : Greets P ({ s with ready := rest } : Switchboard α ρ) := ⟨h.handshake, h.sent⟩
    rw [occur_next_of_ready hr]
    cases t with
    | signals => exact hpop.drain
    | announce g => exact hpop.hear _
    | watch id => exact hpop.of_eq (congrArg _ (link_getOn _ id)) (congrArg _ (wire_getOn _ id))
    | expire id =>
      have hexpired :
          Greets P { s with ready := rest, correlator := s.correlator.expire s.now id } :=
        ⟨h.handshake, h.sent⟩
      exact hexpired.wakeWhere _
    | caller k =>
      rw [perform]
      cases ({ s with ready := rest } : Switchboard α ρ).caller? k with
      | none => exact hpop
      | some c => exact (turn_tend _ c).greets hpop

/-- Every event keeps it, unless it sets another handshake or sends another frame. -/
theorem Greets.occur (h : Greets P s) {e : Event α ρ} (he : e.Greets P) :
    Greets P (s.occur e) := by
  cases e with
  | act step => exact h.act he
  | next => exact h.next
  | tick instant =>
    have hsame := (s.ticked_tick instant).same
    exact h.of_eq (by rw [hsame]) (by rw [hsame])
  | collect => exact ⟨h.handshake, h.sent⟩
  | hush => exact ⟨h.handshake, h.sent⟩

/-- As long as the handshakes that are set have the property, so have all frames that are no
requests. -/
theorem Greets.after (h : Greets P s) {events : List (Event α ρ)}
    (he : ∀ e ∈ events, e.Greets P) : Greets P (s.after events) := by
  induction events generalizing s with
  | nil => exact h
  | cons e rest ih =>
    obtain ⟨hfirst, hrest⟩ := List.forall_mem_cons.mp he
    exact ih (h.occur hfirst) hrest

end Greets

end VenueLink.Switchboard

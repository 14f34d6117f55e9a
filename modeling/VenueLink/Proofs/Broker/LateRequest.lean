import VenueLink.Proofs.Broker.Run
import VenueLink.Proofs.Switchboard.Progress

/-!
# Requests that are sent too late

An exchange may fail while its caller is still underway with the request: the connection closes,
or the venue refuses what it takes for this order. The caller does not look at that; once it has
nothing to wait for any more, it sends the request all the same. Only a deadline stops it.

## Main results

* `sent_after_failure_iff`: when the request of a failed exchange is still sent.
* `refused_order_is_sent`: an order that is refused during the pause after the handshake is sent
  at the end of the pause.
-/

namespace VenueLink

open Exchange Correlator

namespace Switchboard

variable {α ρ : Type}

/-- The request of an exchange that has failed is sent afterwards exactly if its caller, still
underway with it, has a turn in which nothing holds it up. The failure stands whatever is sent.
That cannot happen to an exchange that ran into its deadline, nor once the caller is not
underway any more. -/
theorem sent_after_failure_iff {cap : Nat} {manual : Bool} {s : Switchboard α ρ}
    (hs : (start cap manual).Reaches s) {ex : Nat} {f : Failure}
    (hf : s.resolution? ex = some (.failed f)) (later : List (Event α ρ)) :
    (ex ∈ (s.after later).requests.drop s.requests.length ↔
      ∃ xs ys, later = xs ++ .next :: ys ∧ (s.after xs).HandsOver ex) ∧
    (s.after later).resolution? ex = some (.failed f) ∧
    (f.cause = .timeout ∨ ¬s.InDelivery ex →
      ex ∉ (s.after later).requests.drop s.requests.length) := by
  have h := hs.orderly (orderly_start cap manual)
  obtain ⟨o, ho, hr⟩ := resolution?_eq_some_iff.mp hf
  have hlt := h.sound.lt_of_outcome? ho
  refine ⟨mem_drop_requests_iff h hlt later, ?_, ?_⟩
  · exact resolution?_eq_some_iff.mpr ⟨o, (h.evolves later).outcome?_mono ho, hr⟩
  · rintro (hcause | hdel)
    · obtain ⟨cause, seen⟩ := f
      obtain rfl : cause = .timeout := hcause
      exact not_mem_drop_requests h hlt (not_inDelivery_of_timeout h ho hr) later
    · exact not_mem_drop_requests h hlt hdel later

end Switchboard

namespace Service

open Switchboard

/-- The turn after the pause is the one in which a refused order is sent. -/
theorem refused_order_comes_through :
    (ordering [.wire (.push refusal)]).board.resolution? 0 =
        some (.failed ⟨.rejected, [refusal]⟩) ∧
      ∃ xs ys, [.tick 150, .next] = xs ++ .next :: ys ∧
        ((ordering [.wire (.push refusal)]).board.after xs).HandsOver 0 := by
  have hf : (ordering [.wire (.push refusal)]).board.resolution? 0 =
      some (.failed ⟨.rejected, [refusal]⟩) := by decide +kernel
  have hsent :
      0 ∈ ((ordering [.wire (.push refusal)]).board.after [.tick 150, .next]).requests.drop
      (ordering [.wire (.push refusal)]).board.requests.length := by decide +kernel
  exact ⟨hf, (sent_after_failure_iff (reaches_ordering _) hf [.tick 150, .next]).1.mp hsent⟩

/-- An order that is refused during the pause after the handshake is sent at the end of the
pause. -/
theorem refused_order_is_sent :
    (ordering [.wire (.push refusal)]).board.resolution? 0 =
        some (.failed ⟨.rejected, [refusal]⟩) ∧
      (ordering [.wire (.push refusal)]).board.requests = [] ∧
      (ordering [.wire (.push refusal), .advance 150]).board.requests = [0] := by
  decide +kernel

end Service

end VenueLink

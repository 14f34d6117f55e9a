import VenueLink.Proofs.Switchboard.Biding
import VenueLink.Proofs.Switchboard.Heralds

/-!
# The handshake goes first

A connection gets the handshake before anything else, and every caller that finds the connection
open sends the handshake once more before it pauses for its request. A caller whose handshake
cannot be sent sends no request at all, and neither does any other exchange that it comes to in
the same turn.

## Main results

* `Resumes.greeted`, `Resumes.lost`: the exchanges that a caller begins on an open link, while
  the wire is open and after it has closed.
* `exists_resumes`: whoever begins an exchange on an open link goes on with a plan.
* `handshake_goes_first`: the handshake comes before every request, and the pause between them.
-/

namespace VenueLink

open Exchange Correlator

variable {α ρ : Type}

namespace Switchboard

/-! ### Sending over an open link -/

/-- A frame does not touch the link. -/
theorem link_transmit {s s' : Switchboard α ρ} {exchange : Option Nat} {frame : Json}
    (h : s.transmit exchange frame = .ok s') : s'.link = s.link := by
  obtain ⟨-, w, signals, -, rfl⟩ := exists_send_of_transmit h
  exact link_hear _ signals

/-- Nor does a request. -/
theorem link_request (s : Switchboard α ρ) (exchange : Nat) (spec : Spec α) :
    (s.request exchange spec).1.link = s.link := by
  rw [request]
  split
  · next h => exact link_transmit h
  · rfl

/-- Nor the handshake. -/
theorem link_authenticate (s : Switchboard α ρ) (k exchange : Nat) (spec : Spec α)
    (readiness : Readiness) : (s.authenticate k exchange spec readiness).1.link = s.link :=
  authenticate_of_motions (R := fun s s' => s'.link = s.link) (fun _ => rfl)
    (fun h₁ h₂ => h₂.trans h₁)
    (fun _ h => link_transmit h) (fun h => link_transmit h) (fun _ _ => rfl) s readiness

/-- A caller that makes no attempt leaves the link, and makes none then. -/
theorem link_deliver (s : Switchboard α ρ) {stage : Stage} (hstage : stage.attempt? = none)
    (k exchange : Nat) (spec : Spec α) :
    (s.deliver k exchange spec stage).1.link = s.link ∧
      (s.deliver k exchange spec stage).2.attempt? = none := by
  cases stage with
  | connecting g ripe => cases hstage
  | opening =>
    have hnone := s.attempt?_awaitOpen
    change (proceed k exchange spec (s, s.awaitOpen)).1.link = s.link ∧
      (proceed k exchange spec (s, s.awaitOpen)).2.attempt? = none
    generalize s.awaitOpen = access at hnone ⊢
    cases access with
    | blocked stage => exact ⟨rfl, hnone⟩
    | granted readiness =>
      exact ⟨s.link_authenticate k exchange spec readiness,
        s.attempt?_authenticate k exchange spec readiness⟩
    | refused e => exact ⟨rfl, rfl⟩
  | settling ripe =>
    cases ripe with
    | false => exact ⟨rfl, rfl⟩
    | true =>
      refine ⟨s.link_request exchange spec, ?_⟩
      rw [deliver, request]
      split <;> rfl
  | waiting => exact ⟨rfl, rfl⟩

/-- A caller that is making no attempt to connect leaves the link as it is. -/
theorem link_stride (s : Switchboard α ρ) {c : Caller α ρ} (hstage : c.stage.attempt? = none)
    (ex : Nat) (spec : Spec α) : (s.stride c ex spec).1.link = s.link := by
  by_cases hwaiting : c.stage = .waiting
  · rw [stride_of_waiting hwaiting]
  · rw [stride_of_underway hwaiting]
    obtain ⟨hlink, hnone⟩ := s.link_deliver hstage c.id ex spec
    generalize s.deliver c.id ex spec c.stage = p at hlink hnone ⊢
    obtain ⟨s', d⟩ := p
    cases d with
    | blocked stage =>
      -- a caller that stops here gives up no attempt
      have hstop : (s'.stopAt stage).link = s'.link := by
        cases stage with
        | connecting g ripe => cases hnone
        | _ => rfl
      cases c.late with
      | true => exact hstop.trans hlink
      | false => exact hlink
    | delivered => exact hlink
    | failed e => exact hlink

/-- A frame that is sent over an open link and an open wire is the last one so far. -/
theorem exists_transmit {s : Switchboard α ρ} (hlink : s.link.isOpen) (hopen : s.wire.isOpen)
    (exchange : Option Nat) (frame : Json) :
    ∃ s', s.transmit exchange frame = .ok s' ∧
      s'.wire.sent = s.wire.sent ++ [⟨frame, s.now, s.wire.connection.getD 0, exchange⟩] := by
  rw [transmit, if_pos hlink, Wire.send, if_pos hopen]
  exact ⟨_, rfl, by rw [wire_hear]⟩

/-- Nothing is sent once the wire has closed. -/
theorem exists_transmit_error {s : Switchboard α ρ} (hclosed : s.wire.isOpen = false)
    (exchange : Option Nat) (frame : Json) : ∃ e, s.transmit exchange frame = .error e := by
  rw [transmit]
  split
  · rw [Wire.send, if_neg (by simp [hclosed])]
    exact ⟨_, rfl⟩
  · exact ⟨_, rfl⟩

/-- What a caller sends when it comes to the pause after the handshake is its request, if the
pause takes no time. -/
theorem sent_pause {s : Switchboard α ρ} (hlink : s.link.isOpen) (hopen : s.wire.isOpen)
    (k ex : Nat) (spec : Spec α) (late : Bool) :
    let p := stageAfter k ex late (authenticate.pause k ex spec s)
    p.1.correlator = s.correlator ∧ ∃ post, p.1.wire.sent = s.wire.sent ++ post ∧
      ∀ x ∈ post, s.now + spec.settle ≤ x.time := by
  rw [authenticate.pause]
  by_cases hsettle : spec.settle = 0
  · obtain ⟨s', hsend, hsent⟩ := exists_transmit hlink hopen (some ex) spec.request
    rw [if_pos hsettle, request, hsend]
    refine ⟨(aside_transmit hsend).correlator_eq, _, hsent, fun x hx => ?_⟩
    rw [List.mem_singleton.mp hx, hsettle]
    exact Nat.le_refl _
  · rw [if_neg hsettle]
    cases late <;>
      exact ⟨rfl, [], (List.append_nil _).symm, fun _ hx => absurd hx List.not_mem_nil⟩

/-! ### Going on with a plan -/

section Begin

variable {s : Switchboard α ρ} (hlink : s.link.isOpen) {handshake : Json}
  (hhandshake : s.link.handshake = some handshake)
include hlink hhandshake

/-- A caller that finds the connection open sends the handshake, and then it pauses. -/
theorem proceed_of_transmit {s' : Switchboard α ρ} (hsend : s.transmit none handshake = .ok s')
    (k ex : Nat) (spec : Spec α) :
    proceed k ex spec (s.seekOpen k) = authenticate.pause k ex spec s' := by
  rw [seekOpen, phase_of_isOpen hlink]
  simp only [proceed, authenticate, hhandshake, hsend]

/-- A caller that cannot send the handshake fails. -/
theorem proceed_of_transmit_error {e : OperationError}
    (hsend : s.transmit none handshake = .error e) (k ex : Nat) (spec : Spec α) :
    proceed k ex spec (s.seekOpen k) = (s, .failed e) := by
  rw [seekOpen, phase_of_isOpen hlink]
  simp only [proceed, authenticate, hhandshake, hsend]

/-- An exchange that is begun on an open link starts with the handshake. -/
theorem begin_greets {k : Nat} (hnone : s.pauses k = []) (hopen : s.wire.isOpen)
    (spec : Spec α) :
    let p := s.begin k spec
    p.1.correlator = (s.enrol spec).correlator ∧ p.1.Holds k (s.now + spec.settle) p.2 ∧
      ∃ post, p.1.wire.sent =
          s.wire.sent ++ ⟨handshake, s.now, s.wire.connection.getD 0, none⟩ :: post ∧
        ∀ x ∈ post, s.now + spec.settle ≤ x.time := by
  obtain ⟨s₁, hsend, hsent⟩ := exists_transmit (s := s.enrol spec) hlink hopen none handshake
  have haside := aside_transmit hsend
  have hnow : s₁.now = s.now := haside.now_eq
  have hlink₁ : s₁.link.isOpen := by
    rw [link_transmit hsend]
    exact hlink
  have hopen₁ : s₁.wire.isOpen := (calm_transmit hsend).isOpen_eq.trans hopen
  have hnone₁ : s₁.pauses k = [] :=
    (congrFun (pauses_of_timers_eq (timers_transmit hsend)) k).trans hnone
  obtain ⟨hcorrelator, post, hpost, hlate⟩ :=
    sent_pause hlink₁ hopen₁ k s.correlator.next spec (decide (spec.timeout = 0))
  have hholds := holds_pause hnone₁ s.correlator.next spec (decide (spec.timeout = 0))
  rw [begin_eq, proceed_of_transmit (s := s.enrol spec) hlink hhandshake hsend]
  rw [hnow] at hlate hholds
  generalize stageAfter k s.correlator.next (decide (spec.timeout = 0)) _ = p
    at hcorrelator hpost hholds ⊢
  obtain ⟨s₂, stage⟩ := p
  have hall : s₂.correlator = (s.enrol spec).correlator ∧ ∃ post, s₂.wire.sent =
      s.wire.sent ++ ⟨handshake, s.now, s.wire.connection.getD 0, none⟩ :: post ∧
        ∀ x ∈ post, s.now + spec.settle ≤ x.time := by
    refine ⟨hcorrelator.trans haside.correlator_eq, post, ?_, hlate⟩
    rw [hpost, hsent, List.append_assoc]
    rfl
  have harm : (s₂.arm spec.timeout (.giveUp k)).Holds k (s.now + spec.settle) stage :=
    hholds.of_eq (by simp [pauses_arm]) rfl
  cases stage with
  | waiting => exact ⟨hall.1, hholds, hall.2⟩
  | _ => exact ⟨hall.1, harm, hall.2⟩

/-- An exchange that is begun on an open link fails at once if the wire has closed. -/
theorem begin_of_lost (hclosed : s.wire.isOpen = false) (k : Nat) (spec : Spec α) :
    s.begin k spec = (((s.enrol spec).failExchange s.correlator.next).disarm k, .waiting) := by
  obtain ⟨e, hsend⟩ := exists_transmit_error (s := s.enrol spec) hclosed none handshake
  rw [begin_eq, proceed_of_transmit_error (s := s.enrol spec) hlink hhandshake hsend]
  rfl

/-- A caller that goes on with a plan on an open link sends nothing if the wire has closed, and
goes. -/
theorem pursue_of_lost (hclosed : s.wire.isOpen = false) {k : Nat} (hi : s.Idle k)
    (label : String) {n : Nat} (plan : Plan α ρ n) :
    (s.pursue k label plan).wire.sent = s.wire.sent ∧
      ∀ d ∈ (s.pursue k label plan).callers, d.id ≠ k := by
  induction plan generalizing s with
  | report r => exact ⟨rfl, fun d hd => not_mem_finish hd⟩
  | exchange spec next ih =>
    obtain ⟨hturn, hfits⟩ := begin_spec hi label spec (.exchange s.correlator.next spec _ next)
    have hbegin := begin_of_lost hlink hhandshake hclosed k spec
    have hi₁ := hi.of_spares hturn ((hfits.settled (by rw [hbegin])).disarmed)
    have hended : s.correlator.next ∉ (s.begin k spec).1.correlator.pendingIds := by
      rw [hbegin]
      exact not_pending_failExchange (hi.enrol spec).sound s.correlator.next
    obtain ⟨o, ho⟩ := Option.ne_none_iff_exists'.mp fun hnone =>
      hended (hi₁.sound.mem_pending_iff.mpr ⟨hfits.known.registered, hnone⟩)
    have hend :
        (s.begin k spec).1.ending? s.correlator.next (s.begin k spec).2 = some o.resolution :=
      ending?_eq_some_iff.mpr ⟨by rw [hbegin], o, ho, rfl⟩
    rw [pursue_exchange, hend]
    have hrest := ih o.resolution (s := (s.begin k spec).1) (by rw [hbegin]; exact hlink)
      (by rw [hbegin]; exact hhandshake) (by rw [hbegin]; exact hclosed) hi₁
    refine ⟨hrest.1.trans ?_, hrest.2⟩
    rw [hbegin]
    rfl

end Begin

/-- In a move from `s` the caller `k` has come to `s₀`, where it goes on with a plan. The
connection is as it was in `s`. -/
structure Resumes (s : Switchboard α ρ) (k : Nat) (s₀ : Switchboard α ρ) : Prop where
  idle : s₀.Idle k
  pauses_eq_nil : s₀.pauses k = []
  known : ∀ d ∈ s₀.callers, d.id ≠ k → ∀ ex, d.goal.exchange? = some ex →
    ex < s₀.correlator.next
  now_eq : s₀.now = s.now
  next_eq : s₀.correlator.next = s.correlator.next
  link_eq : s₀.link = s.link
  isOpen_eq : s₀.wire.isOpen = s.wire.isOpen
  connection_eq : s₀.wire.connection = s.wire.connection
  sent : s.wire.sent <+: s₀.wire.sent

section Resumes

variable {s s₀ : Switchboard α ρ} {k ex : Nat} {label : String} {n : Nat} {plan : Plan α ρ n}
  {handshake : Json} (h : s.Resumes k s₀) (hlink : s.link.isOpen)
  (hhandshake : s.link.handshake = some handshake) (hle : s.correlator.next ≤ ex)
  (hlt : ex < (s₀.pursue k label plan).correlator.next)

/-- The request of an exchange that is still to come has not been sent. -/
theorem Resumes.unsent (h : s.Resumes k s₀) (hle : s.correlator.next ≤ ex) {x : Sent}
    (hx : x ∈ s₀.wire.sent) : x.exchange ≠ some ex := by
  intro hex
  have := h.idle.requests_lt ex (List.mem_filterMap.mpr ⟨x, hx, hex⟩)
  have := h.next_eq
  omega

include h hlink hhandshake hle hlt

/-- A caller that begins an exchange on an open link sends the handshake first, and holds back
the request until the pause is over. -/
theorem Resumes.greeted (hopen : s.wire.isOpen) :
    (∃ pre post, (s₀.pursue k label plan).wire.sent =
        pre ++ ⟨handshake, s.now, s.wire.connection.getD 0, none⟩ :: post ∧
          s.wire.sent <+: pre ∧
        ∀ x ∈ pre, x.exchange ≠ some ex) ∧
      ∃ c ∈ (s₀.pursue k label plan).callers, ∃ spec, c.goal.errand? = some (ex, spec) ∧
        (s₀.pursue k label plan).Bides ex (s.now + spec.settle) := by
  cases plan with
  | report r =>
    have : ex < s₀.correlator.next := hlt
    have := h.next_eq
    omega
  | exchange spec next =>
    have hnd := ((begin_spec h.idle label spec
      (.exchange s₀.correlator.next spec _ next)).1.callers h.idle.ids_nodup)
    obtain ⟨hcorrelator, hholds, post, hsent, hlate⟩ := begin_greets (h.link_eq ▸ hlink)
      (h.link_eq ▸ hhandshake) h.pauses_eq_nil (h.isOpen_eq ▸ hopen) spec
    have hnone : (s₀.begin k spec).1.ending? s₀.correlator.next (s₀.begin k spec).2 = none := by
      refine ending?_eq_none_iff.mpr fun _ => ?_
      rw [hcorrelator]
      exact outcome?_next h.idle.sound
    rw [pursue_exchange, hnone] at hlt ⊢
    dsimp only at hlt ⊢
    obtain rfl : ex = s₀.correlator.next := by
      have hlt : ex < (s₀.begin k spec).1.correlator.next := hlt
      rw [hcorrelator, next_enrol] at hlt
      have := h.next_eq
      omega
    rw [h.now_eq, h.connection_eq] at hsent
    rw [h.now_eq] at hholds hlate
    have hbides : ((s₀.begin k spec).1.keep ⟨k, label, (s₀.begin k spec).2, false,
        .exchange s₀.correlator.next spec _ next⟩).Bides s₀.correlator.next
          (s.now + spec.settle) := by
      refine ⟨hlt, fun x hx hex => ?_, fun d hd hex => ?_⟩
      · have hx : x ∈ (s₀.begin k spec).1.wire.sent := hx
        rw [hsent] at hx
        rcases List.mem_append.mp hx with hold | hnew
        · exact absurd hex (h.unsent hle hold)
        · rcases List.mem_cons.mp hnew with rfl | hpost
          · cases hex
          · exact hlate x hpost
      · rcases (mem_keep hnd.1).mp hd with rfl | ⟨hd, hne⟩
        · exact hholds.of_eq rfl rfl
        · exact absurd (h.known d ((hnd.2 d hne).mp hd) hne _ hex) (Nat.lt_irrefl _)
    exact ⟨⟨s₀.wire.sent, post, hsent, h.sent, fun x hx => h.unsent hle hx⟩,
      _, (mem_keep hnd.1).mpr (.inl rfl), spec, rfl, hbides⟩

/-- A caller that begins an exchange on an open link sends no request for it if the wire has
closed. -/
theorem Resumes.lost (hclosed : s.wire.isOpen = false) (t : Nat) :
    (s₀.pursue k label plan).Bides ex t := by
  obtain ⟨hsent, hgone⟩ := pursue_of_lost (h.link_eq ▸ hlink) (h.link_eq ▸ hhandshake)
    (h.isOpen_eq ▸ hclosed) h.idle label plan
  refine ⟨hlt, fun x hx hex => ?_, fun d hd hex => ?_⟩
  · rw [hsent] at hx
    exact absurd hex (h.unsent hle hx)
  · have hd₀ :=
      (((spares_pursue h.idle label plan).callers h.idle.ids_nodup).2 d (hgone d hd)).mp hd
    have := h.known d hd₀ (hgone d hd) ex hex
    have := h.next_eq
    omega

end Resumes

/-! ### Who begins an exchange -/

/-- A new caller waits for a message, and will send nothing. -/
def Move.listens : Move α ρ → Bool
  | .act (.listen _ _ _ _) _ => true
  | _ => false

/-- In a move an exchange is begun whose request is to be sent. -/
structure Undertakes (s : Switchboard α ρ) (m : Move α ρ) (ex : Nat) : Prop where
  new : s.correlator.next ≤ ex
  registered : ex < (s.move m).correlator.next
  speaks : m.listens = false

section Begins

variable {s : Switchboard α ρ} (ho : s.Orderly) (hr : s.Restful)
include ho hr

/-- A new caller starts on its plan. -/
theorem resumes_enlist : s.Resumes s.next s.enlist where
  idle := idle_enlist ho
  pauses_eq_nil := hr.pauses_eq_nil fun c hc => Nat.ne_of_lt (ho.ids_lt c hc)
  known d hd _ ex hex := by
    obtain ⟨spec, he⟩ := Goal.exchange?_eq_some_iff.mp hex
    exact (ho.fits hd he).known.registered
  now_eq := rfl
  next_eq := rfl
  link_eq := rfl
  isOpen_eq := rfl
  connection_eq := rfl
  sent := List.prefix_rfl

variable (hin : s.InTune) (hlink : s.link.isOpen)
include hin hlink

/-- A caller goes on with its plan when the exchange that it waited for has ended. -/
theorem resumes_stride {c : Caller α ρ} {rest : List Task}
    (hready : s.ready = .caller c.id :: rest) (hc : c ∈ s.callers) {ex : Nat} {spec : Spec α}
    (he : c.goal.errand? = some (ex, spec))
    (hstage : (({ s with ready := rest } : Switchboard α ρ).stride c ex spec).2 = .waiting) :
    s.Resumes c.id (({ s with ready := rest } : Switchboard α ρ).stride c ex spec).1 := by
  have hpop := orderlyBut_pop ho hready
  obtain ⟨hturn, hfits, -⟩ := stride_spec hpop.sound (poised_of_ready ho hready hc he)
  have hphase := phase_of_isOpen hlink
  have hnone := hin.attempt?_eq_none hlink hc
  have hattuned :
      Attuned (s.AttemptBut none) none ({ s with ready := rest } : Switchboard α ρ) :=
    hin.attuned.of_calm (calm_pop hready fun _ heq => by cases heq)
  have htries := ({ s with ready := rest } : Switchboard α ρ).tries_stride c ex spec
  rw [hnone] at htries
  have hcalm := htries.calm_of_opened hattuned hphase
  have hlingers :=
    lingers_stride (s := { s with ready := rest }) (hr.sits ho.ids_nodup hc) ex spec
  rw [hstage] at hlingers
  have hdeadlines := (({ s with ready := rest } : Switchboard α ρ).confined_stride c ex spec).2
  have hnext := congrArg List.length hdeadlines
  refine ⟨hpop.idle_of_turn hturn (hfits.settled hstage).disarmed, hlingers.pauses_eq_nil,
    fun d hd hne ex' hex => ?_, hturn.now_eq, hnext, link_stride _ hnone ex spec,
      hcalm.isOpen_eq,
    hcalm.connection_eq, hcalm.sent_grows⟩
  obtain ⟨spec', he'⟩ := Goal.exchange?_eq_some_iff.mp hex
  have hbefore := ((hturn.callers ho.ids_nodup).2 d hne).mp hd
  exact Nat.lt_of_lt_of_eq (ho.fits hbefore he').known.registered hnext.symm

/-- A caller that registers an exchange in its turn goes on with a plan. -/
theorem exists_resumes_turn {c : Caller α ρ} {rest : List Task}
    (hready : s.ready = .caller c.id :: rest) (hc : c ∈ s.callers)
    (hno : (({ s with ready := rest } : Switchboard α ρ).tend
      c).correlator.next ≠ s.correlator.next) :
    ∃ k s₀ label n, ∃ plan : Plan α ρ n,
      s.Resumes k s₀ ∧ ({ s with ready := rest } : Switchboard α ρ).tend c =
        s₀.pursue k label plan := by
  cases hg : c.goal with
  | readiness tell =>
    have haccess :=
      (({ s with ready := rest } : Switchboard α ρ).aside_access c.stage).correlator_eq
    rw [tend_readiness _ hg] at hno
    refine (hno ?_).elim
    split <;> exact congrArg Correlator.next haccess
  | exchange ex spec n next =>
    have htend := tend_exchange ({ s with ready := rest } : Switchboard α ρ) hg
    have hdeadlines :=
      (({ s with ready := rest } : Switchboard α ρ).confined_stride c ex spec).2
    cases hend : (({ s with ready := rest } : Switchboard α ρ).stride c ex spec).1.ending? ex
        (({ s with ready := rest } : Switchboard α ρ).stride c ex spec).2 with
    | none =>
      simp only [hend] at htend
      rw [htend] at hno
      exact (hno (congrArg List.length hdeadlines)).elim
    | some r =>
      simp only [hend] at htend
      have hresumes := resumes_stride ho hr hin hlink hready hc (by rw [hg, Goal.errand?])
        (ending?_eq_some_iff.mp hend).1
      exact ⟨_, _, c.label, n, next r, hresumes, htend⟩

/-- Whoever begins an exchange on an open link goes on with a plan. -/
theorem exists_resumes {m : Move α ρ} {ex : Nat} (h : s.Undertakes m ex) :
    ∃ k s₀ label n, ∃ plan : Plan α ρ n, s.Resumes k s₀ ∧
      s.move m = s₀.pursue k label plan := by
  obtain ⟨hnew, hregistered, hspeaks⟩ := h
  -- what registers no exchange is no such move
  have hno : (s.move m).correlator.next = s.correlator.next → False := fun heq => by
    rw [heq] at hregistered
    omega
  by_cases htick : ∃ instant, m = .tick instant
  · obtain ⟨instant, rfl⟩ := htick
    exact (hno (congrArg Correlator.next (s.ticked_tick instant).correlator_eq)).elim
  have hs := occurs_move ho fun instant heq => htick ⟨instant, heq⟩
  generalize hevent : m.event = e at hs
  generalize s.move m = s' at hs hno hregistered ⊢
  cases hs with
  | pass hp _ =>
    obtain ⟨ended, hends, -⟩ := hp.ends
    exact (hno hends.next_eq).elim
  | resume _ => exact (hno rfl).elim
  | turn hready hc => exact exists_resumes_turn ho hr hin hlink hready hc hno
  | launch label plan => exact ⟨_, _, label, _, plan, resumes_enlist ho hr, rfl⟩
  | ensureOpen label tell =>
    have hseek := (s.enlist.aside_seekOpen s.next).correlator_eq
    rw [ensureOpen_eq] at hno
    refine (hno ?_).elim
    split <;> exact congrArg Correlator.next hseek
  | listen label matcher timeout tell =>
    cases m with
    | act step plain =>
      obtain rfl : step = .listen label matcher timeout tell := by
        simpa [Move.event] using hevent
      cases hspeaks
    | _ => cases hevent
  | @leave _ c hc hnone =>
    exact (hno (congrArg Correlator.next (s.aside_stopAt c.stage).correlator_eq)).elim

end Begins

/-- A caller that is ready first has its turn next. -/
theorem move_next_of_caller {s : Switchboard α ρ} (hnd : (s.callers.map Caller.id).Nodup)
    {c : Caller α ρ} {rest : List Task} (hready : s.ready = .caller c.id :: rest)
    (hc : c ∈ s.callers) :
    s.move .next = ({ s with ready := rest } : Switchboard α ρ).tend c := by
  have hmove : s.move .next = s.occur .next := by rw [move, hready]
  have hfind : ({ s with ready := rest } : Switchboard α ρ).caller? c.id = some c :=
    caller?_of_mem (s := { s with ready := rest }) hnd hc
  rw [hmove, occur_next_of_ready hready, perform, hfind]

/-- Access without a wait is had on an open link. -/
theorem phase_of_awaitOpen_granted {s : Switchboard α ρ} {readiness : Readiness}
    (h : s.awaitOpen = .granted readiness) : s.link.phase = .opened := by
  rw [awaitOpen] at h
  split at h
  · cases h
  · next hphase => exact hphase
  · cases h

/-- A caller that is granted access in its turn has waited for the connection. -/
theorem opening_of_granted {s : Switchboard α ρ} (hin : s.InTune) {c : Caller α ρ}
    (hc : c ∈ s.callers) {readiness : Readiness}
    (h : (s.access c.stage).2 = .granted readiness) :
    c.stage = .opening ∧ s.link.phase = .opened := by
  cases hstage : c.stage with
  | connecting g ripe =>
    -- the attempt has just gone through, and nobody has told that the connection is open
    have hphase := (hin.attuned.attempt g (.inr ⟨c, hc, by simp, by rw [hstage]; rfl⟩)).2.1
    rw [hstage] at h
    cases ripe with
    | false => cases h
    | true =>
      rw [access, connect] at h
      split at h
      · cases h
      · have hopened := phase_of_awaitOpen_granted h
        rw [link_announce, hphase] at hopened
        cases hopened
  | opening =>
    rw [hstage] at h
    exact ⟨rfl, phase_of_awaitOpen_granted h⟩
  | settling ripe =>
    rw [hstage] at h
    cases h
  | waiting =>
    rw [hstage] at h
    cases h

/-! ### The handshake goes first -/

/-- **The handshake goes first.** Wherever a play has come to, with a handshake set: when the
link hears that a connection is open while the wire is, the handshake is the first frame that
ever goes over that connection, and if the news is of an earlier connection, no frame does. An
exchange that is begun on an open link sends the handshake before its request, and its request
no earlier than the pause after that; if the wire has closed by then, the request is never sent.
An exchange whose caller has waited until the connection is open sends its request no earlier
than the pause after that. -/
theorem handshake_goes_first (cap : Nat) (manual : Bool) {moves : List (Move α ρ)}
    (hmoves : ∀ m ∈ moves, m.Own) :
    let sent := ((start cap manual).play moves).wire.sent
    ∀ before m later, moves = before ++ m :: later →
      let u := (start cap manual).play before
      ∀ handshake, u.link.handshake = some handshake →
        (∀ g, u.heard m = [.opened g] → u.wire.isOpen →
          (g = u.link.generation →
            ∃ rest, sent.filter (·.generation = g) = ⟨handshake, u.now, g, none⟩ :: rest) ∧
          (g ≠ u.link.generation → sent.filter (·.generation = g) = [])) ∧
        (u.link.phase = .opened → ∀ ex, u.Undertakes m ex →
          (u.wire.isOpen → ∃ pre post,
            sent = pre ++ ⟨handshake, u.now, u.link.generation, none⟩ :: post ∧
            u.wire.sent <+: pre ∧ (∀ x ∈ pre, x.exchange ≠ some ex) ∧
            ∃ c ∈ (u.move m).callers, ∃ spec, c.goal.errand? = some (ex, spec) ∧
              ∀ x ∈ sent, x.exchange = some ex → u.now + spec.settle ≤ x.time) ∧
          (u.wire.isOpen = false → ∀ x ∈ sent, x.exchange ≠ some ex)) ∧
        ∀ c ∈ u.callers, ∀ ex spec rest readiness, c.goal.errand? = some (ex, spec) →
          m = .next → u.ready = .caller c.id :: rest →
            (u.access c.stage).2 = .granted readiness →
          ∀ x ∈ sent, x.exchange = some ex → u.now + spec.settle ≤ x.time := by
  dsimp only
  rintro before m later rfl handshake hhandshake
  have hbefore : ∀ m' ∈ before, m'.Own := fun m' hm' => hmoves m' (List.mem_append_left _ hm')
  have hm : m.Own := hmoves m (List.mem_append_right _ List.mem_cons_self)
  have hlater : ∀ m' ∈ later, m'.Own := fun m' hm' =>
    hmoves m' (List.mem_append_right _ (List.mem_cons_of_mem _ hm'))
  have ho := orderly_play
    (orderly_start cap manual : (start cap manual : Switchboard α ρ).Orderly)
    before
  have hin := inTune_play (orderly_start cap manual) (inTune_start cap manual) hbefore
  have hr := restful_play (restful_start cap manual) (orderly_start cap manual) before
  have hheralded := heralded_play cap manual hbefore
  have hplay : (start cap manual).play (before ++ m :: later) =
      (((start cap manual).play before).move m).play later := play_append _ before (m :: later)
  rw [hplay]
  generalize (start cap manual : Switchboard α ρ).play before =
    u at ho hin hr hheralded hhandshake ⊢
  have ho' := orderly_move ho m
  have hr' := hr.move ho m
  refine ⟨fun g hheard hopen => first_frame ho hin hheralded hm hheard hopen hhandshake hlater,
    fun hphase ex hundertakes => ?_, ?_⟩
  · have hlink : u.link.isOpen := by simpa [Link.isOpen] using hphase
    obtain ⟨k, s₀, label, n, plan, hresumes, hmove⟩ :=
      exists_resumes ho hr hin hlink hundertakes
    have hlt := hundertakes.registered
    rw [hmove] at hlt ho' hr' ⊢
    refine ⟨fun hopen => ?_, fun hclosed x hx hex => ?_⟩
    · obtain ⟨⟨pre, post, hsent, hprefix, hnone⟩, c, hc, spec, he, hbides⟩ :=
        hresumes.greeted hlink hhandshake hundertakes.new hlt hopen
      obtain ⟨more, hmore⟩ := sent_grows_play ho' hlater
      rw [hin.attuned.opened hphase, Option.getD_some] at hsent
      refine ⟨pre, post ++ more, ?_, hprefix, hnone, c, hc, spec, he, ?_⟩
      · rw [← hmore, hsent, List.append_assoc, List.cons_append]
      · exact (hbides.play ho' hr' later).sent
    · have hbides := hresumes.lost hlink hhandshake hundertakes.new hlt hclosed (x.time + 1)
      exact Nat.not_succ_le_self _ ((hbides.play ho' hr' later).sent x hx hex)
  · rintro c hc ex spec rest readiness he rfl hready hgranted
    obtain ⟨hstage, hphase⟩ := opening_of_granted hin hc hgranted
    rw [move_next_of_caller ho.ids_nodup hready hc] at ho' hr' ⊢
    have hbides := bides_of_opening (orderlyBut_pop ho hready)
      (fun ex spec he => poised_of_ready ho hready hc he) (hr.sits ho.ids_nodup hc) hstage
      (by simpa [Link.isOpen] using hphase) hhandshake he fun d hd hex =>
        ho.apart d hd c hc ex hex (exchange?_of_errand? he)
    exact (hbides.play ho' hr' later).sent

/-- A call that pauses after the handshake. -/
def greetedCall (request : String) : Spec Unit where
  request := .string request
  matcher := { accepts := fun _ => false, answer := fun _ => () }
  timeout := 4000
  settle := 50

/-- A call of a caller that makes no other one. -/
def calling (request : String) : Move Unit Unit :=
  .act (.launch request 1 (.exchange (greetedCall request) fun _ => .report ())) trivial

/-- A handshake is set, and a caller opens the connection. -/
def dialling : List (Move Unit Unit) :=
  [.act (.setHandshake (some (.string "hello"))) trivial, calling "first", .next, .next]

/-- The connection opens, and the caller pauses and sends its request. Then another call comes.
-/
def twoCalls : List (Move Unit Unit) :=
  dialling ++ [.deliver, .next, .tick 50, .next, calling "second", .tick 100, .next, .next]

/-- Each of the two calls finds its handshake sent, the second one by itself, and pauses. -/
theorem twoCalls_greeted :
    let sent := ((start 5 false).play twoCalls).wire.sent
    sent.map (fun x => (x.frame, x.time, x.exchange)) =
      [(.string "hello", 0, none), (.string "first", 50, some 0), (.string "hello", 50, none),
        (.string "second", 100, some 1)] ∧
    (∃ rest, sent.filter (·.generation = 1) = ⟨.string "hello", 0, 1, none⟩ :: rest) ∧
    (∃ pre post, sent = pre ++ ⟨.string "hello", 50, 1, none⟩ :: post ∧
      ∀ x ∈ pre, x.exchange ≠ some 1) ∧
    ∀ x ∈ sent, x.exchange = some 0 → 0 + 50 ≤ x.time := by
  have hmoves : ∀ m ∈ twoCalls, m.Own := by simp [twoCalls, dialling, calling, Move.Own]
  have hgoes := handshake_goes_first 5 false hmoves
  refine ⟨by decide +kernel, ?_, ?_, ?_⟩
  · have hopening := (hgoes dialling .deliver
      [.next, .tick 50, .next, calling "second", .tick 100, .next, .next] rfl (.string "hello")
      (by decide +kernel)).1 1 (by decide +kernel) (by decide +kernel)
    exact hopening.1 (by decide +kernel)
  · have hopen := (hgoes (dialling ++ [.deliver, .next, .tick 50, .next]) (calling "second")
      [.tick 100, .next, .next] rfl (.string "hello") (by decide +kernel)).2.1
        (by decide +kernel) 1
      ⟨by decide +kernel, by decide +kernel, rfl⟩
    obtain ⟨pre, post, hsent, -, hnone, -⟩ := hopen.1 (by decide +kernel)
    exact ⟨pre, post, hsent, hnone⟩
  · have hwaited := (hgoes (dialling ++ [.deliver]) .next
      [.tick 50, .next, calling "second", .tick 100, .next, .next] rfl (.string "hello")
      (by decide +kernel)).2.2
    exact hwaited _ (List.mem_singleton.mpr rfl) 0 (greetedCall "first") [] .opened rfl rfl
      (by decide +kernel) rfl

end Switchboard

end VenueLink

import VenueLink.Proofs.Switchboard.Owner
import VenueLink.Proofs.Switchboard.Play

/-!
# Pauses

A caller sits out a pause before an attempt that hangs, and another one between the handshake
and its request. A timer tells when a pause is over; nobody has more than one such timer, and
whoever has one is at a stage that is such a pause. A turn therefore leaves the pauses of all
others as they are.

## Main results

* `paces_tend`, `paces_pursue`: the pauses in the turn of a caller, and in the one in which it
  starts on a plan.
* `Restful.move`, `restful_play`: nobody sits out two pauses at a time.
-/

namespace VenueLink

open Exchange Correlator

variable {α ρ : Type}

/-- A caller at the stage sits out a pause. -/
def Stage.pausing : Stage → Bool
  | connecting _ ripe => !ripe
  | settling ripe => !ripe
  | _ => false

namespace Switchboard

/-- The pause that a caller is left with. -/
def Access.pausing : Access → Bool
  | .blocked stage => stage.pausing
  | _ => false

/-- The pause that a caller is left with. -/
def Delivery.pausing : Delivery → Bool
  | .blocked stage => stage.pausing
  | _ => false

/-! ### The timers of a caller's pauses -/

/-- The instants at which a pause of a caller is over. -/
def pauses (s : Switchboard α ρ) (k : Nat) : List Nat :=
  (s.timers.filter (·.alarm = .ripen k)).map Timer.due

/-- A pause is over at the instant of its timer. -/
theorem mem_pauses_iff {s : Switchboard α ρ} {k due : Nat} :
    due ∈ s.pauses k ↔ ∃ t ∈ s.timers, t.alarm = .ripen k ∧ t.due = due := by
  simp [pauses, and_assoc]

/-- Where no timer is touched, no pause is. -/
theorem pauses_of_timers_eq {s s' : Switchboard α ρ} (h : s'.timers = s.timers) :
    s'.pauses = s.pauses := by
  funext k
  rw [pauses, h, pauses]

/-- A timer that is set for a pause adds one. -/
theorem pauses_arm (s : Switchboard α ρ) (duration : Nat) (alarm : Alarm) (k : Nat) :
    (s.arm duration alarm).pauses k =
      s.pauses k ++ if alarm = .ripen k then [s.now + duration] else [] := by
  rw [pauses, arm, List.filter_append, List.map_append, pauses]
  congr 1
  split <;> simp [*]

/-- A caller that takes back its timers has no pause left. -/
theorem pauses_disarm_self (s : Switchboard α ρ) (k : Nat) : (s.disarm k).pauses k = [] := by
  simp only [pauses, disarm, List.filter_filter, List.map_eq_nil_iff, List.filter_eq_nil_iff]
  intro t _
  by_cases ht : t.alarm = .ripen k <;> simp [ht, Alarm.caller?]

/-- The others keep theirs. -/
theorem pauses_disarm_of_ne (s : Switchboard α ρ) {j k : Nat} (h : j ≠ k) :
    (s.disarm k).pauses j = s.pauses j := by
  simp only [pauses, disarm, List.filter_filter]
  congr 2
  funext t
  by_cases ht : t.alarm = .ripen j <;> simp [ht, Alarm.caller?, h]

/-- An announcement is no pause. -/
theorem pauses_announce (s : Switchboard α ρ) (g : Nat) : (s.announce g).pauses = s.pauses := by
  rw [announce]
  split
  · exact pauses_of_timers_eq (s.timers_hear _)
  · funext k
    simp [pauses_arm]

/-- Nor is a connection that is asked for. -/
theorem pauses_connect (s : Switchboard α ρ) (g : Nat) : (s.connect g).1.pauses = s.pauses := by
  rw [connect]
  split
  · exact pauses_of_timers_eq (s.timers_abandon g)
  · exact pauses_announce _ g

/-- Nor is the way to one. -/
theorem pauses_access (s : Switchboard α ρ) (stage : Stage) :
    (s.access stage).1.pauses = s.pauses := by
  simp only [access]
  split
  · exact s.pauses_connect _
  · rfl
  · rfl

/-- A request sets no timer. -/
theorem timers_request (s : Switchboard α ρ) (exchange : Nat) (spec : Spec α) :
    (s.request exchange spec).1.timers = s.timers := by
  rw [request]
  split
  · next h => exact timers_transmit h
  · rfl

/-! ### The pauses in a turn -/

/-- The pauses that a caller has left are at most the one of its stage. -/
def Sits (s : Switchboard α ρ) (k : Nat) (stage : Stage) : Prop :=
  (s.pauses k).length ≤ stage.pausing.toNat

/-- A caller at a stage that is no pause has none left. -/
theorem Sits.pauses_eq_nil {s : Switchboard α ρ} {k : Nat} {stage : Stage} (h : s.Sits k stage)
    (hstage : stage.pausing = false) : s.pauses k = [] := by
  rw [Sits, hstage] at h
  exact List.length_eq_zero_iff.mp (Nat.le_zero.mp h)

/-- From `s` to `s'` the pauses of all others stay as they are, and the caller `k` has at most
one left, by which it is `held` up. -/
structure Lingers (k : Nat) (held : Bool) (s s' : Switchboard α ρ) : Prop where
  others : ∀ j, j ≠ k → s'.pauses j = s.pauses j
  own : (s'.pauses k).length ≤ held.toNat

section Lingers

variable {k : Nat} {held : Bool} {s s' : Switchboard α ρ}

/-- A caller stays as it is. -/
theorem lingers_of_pauses_eq (h : s'.pauses = s.pauses)
    (hown : (s.pauses k).length ≤ held.toNat) : Lingers k held s s' :=
  ⟨fun j _ => congrFun h j, (congrFun h k).symm ▸ hown⟩

/-- A caller without a pause gets none. -/
theorem lingers_of_nil (h : s'.pauses = s.pauses) (hnone : s.pauses k = []) (held : Bool) :
    Lingers k held s s' :=
  lingers_of_pauses_eq h (by simp [hnone])

/-- A caller that is not held up has no pause left. -/
theorem Lingers.pauses_eq_nil (h : Lingers k false s s') : s'.pauses k = [] :=
  List.length_eq_zero_iff.mp (Nat.le_zero.mp h.own)

/-- Two stretches one after the other. -/
theorem Lingers.trans {next : Bool} {s₁ s₂ s₃ : Switchboard α ρ} (h₁ : Lingers k held s₁ s₂)
    (h₂ : Lingers k next s₂ s₃) : Lingers k next s₁ s₃ :=
  ⟨fun j hj => (h₂.others j hj).trans (h₁.others j hj), h₂.own⟩

/-- All timers of the caller are taken back. -/
theorem Lingers.disarm (h : Lingers k held s s') (next : Bool) :
    Lingers k next s (s'.disarm k) where
  others j hj := (s'.pauses_disarm_of_ne hj).trans (h.others j hj)
  own := by simp [pauses_disarm_self]

/-- A caller without a pause begins one. -/
theorem lingers_arm (hnone : s.pauses k = []) (duration : Nat) :
    Lingers k true s (s.arm duration (.ripen k)) where
  others j hj := by simp [pauses_arm, Ne.symm hj]
  own := by simp [pauses_arm, hnone]

/-- A caller that looks for a connection pauses at most before its attempt. -/
theorem lingers_seekOpen (hnone : s.pauses k = []) :
    Lingers k (s.seekOpen k).2.pausing s (s.seekOpen k).1 := by
  simp only [seekOpen]
  split
  · exact lingers_of_nil rfl hnone _
  · exact lingers_of_nil rfl hnone _
  · have hattempt :
        Lingers k false s { s with link := s.link.attempt, wire := s.wire.attempt } := by
      refine lingers_of_nil ?_ hnone _
      rfl
    simp only [dial]
    split
    · exact hattempt.trans (lingers_of_nil (pauses_connect _ _) hattempt.pauses_eq_nil _)
    · exact hattempt.trans (lingers_arm hattempt.pauses_eq_nil _)

/-- A caller that is not held up any more had no pause left. -/
theorem lingers_access {stage : Stage} (h : s.Sits k stage) :
    Lingers k (s.access stage).2.pausing s (s.access stage).1 := by
  have hpauses := s.pauses_access stage
  cases stage with
  | connecting g ripe =>
    cases ripe with
    | true => exact lingers_of_nil hpauses (h.pauses_eq_nil rfl) _
    | false => exact lingers_of_pauses_eq hpauses h
  | opening => exact lingers_of_nil hpauses (h.pauses_eq_nil rfl) _
  | settling ripe => exact lingers_of_pauses_eq hpauses h
  | waiting => exact lingers_of_pauses_eq hpauses h

/-- And one that authenticates at most after the handshake. -/
theorem lingers_authenticate (hnone : s.pauses k = []) (exchange : Nat) (spec : Spec α)
    (readiness : Readiness) : Lingers k (s.authenticate k exchange spec readiness).2.pausing s
      (s.authenticate k exchange spec readiness).1 := by
  have hrequest : ∀ {s : Switchboard α ρ} {b : Bool}, s.pauses k = [] →
      Lingers k b s (s.request exchange spec).1 := fun hnone =>
    lingers_of_nil (pauses_of_timers_eq (timers_request _ exchange spec)) hnone _
  have hpause : ∀ {s : Switchboard α ρ}, s.pauses k = [] →
      Lingers k (authenticate.pause k exchange spec s).2.pausing s
        (authenticate.pause k exchange spec s).1 := by
    intro s hnone
    rw [authenticate.pause]
    split
    · exact hrequest hnone
    · exact lingers_arm hnone spec.settle
  rw [authenticate]
  split
  · exact hrequest hnone
  · split
    · exact hpause hnone
    · split
      · next h =>
        have hsent := pauses_of_timers_eq (timers_transmit h)
        exact (lingers_of_nil hsent hnone false).trans (hpause ((congrFun hsent k).trans hnone))
      · exact lingers_of_nil rfl hnone _

/-- What comes after a connection adds at most that pause. -/
theorem lingers_proceed {p : Switchboard α ρ × Access} (h : Lingers k p.2.pausing s p.1)
    (exchange : Nat) (spec : Spec α) : Lingers k (proceed k exchange spec p).2.pausing s
      (proceed k exchange spec p).1 := by
  obtain ⟨s', access⟩ := p
  cases access with
  | blocked stage => exact h
  | refused e => exact h
  | granted readiness =>
      exact h.trans (lingers_authenticate h.pauses_eq_nil exchange spec readiness)

/-- A caller that goes on with its request is held up by the pause that it comes to. -/
theorem lingers_deliver {stage : Stage} (h : s.Sits k stage) (exchange : Nat) (spec : Spec α) :
    Lingers k (s.deliver k exchange spec stage).2.pausing s
      (s.deliver k exchange spec stage).1 := by
  simp only [deliver]
  split
  · exact lingers_of_nil (pauses_of_timers_eq (s.timers_request exchange spec))
      (h.pauses_eq_nil rfl) _
  · exact lingers_proceed (lingers_access h) exchange spec

/-- A caller that is stopped sets no timer. -/
theorem timers_stopAt (s : Switchboard α ρ) (stage : Stage) :
    (s.stopAt stage).timers = s.timers := by
  cases stage with
  | connecting g ripe => exact s.timers_abandon g
  | _ => rfl

/-- A caller that is late has no pause left. -/
theorem lingers_stageAfter {p : Switchboard α ρ × Delivery} (h : Lingers k p.2.pausing s p.1)
    (exchange : Nat) (late : Bool) : Lingers k (stageAfter k exchange late p).2.pausing s
      (stageAfter k exchange late p).1 := by
  obtain ⟨s', d⟩ := p
  cases d with
  | blocked stage =>
    cases late with
    | true =>
      have hstop : Lingers k stage.pausing s (s'.stopAt stage) :=
        h.trans (lingers_of_pauses_eq (pauses_of_timers_eq (s'.timers_stopAt stage)) h.own)
      exact hstop.disarm false
    | false => exact h
  | delivered => exact h.disarm false
  | failed e =>
    have hfail : Lingers k false s (s'.failExchange exchange) :=
      h.trans (lingers_of_pauses_eq rfl h.own)
    exact hfail.disarm false

/-- A caller that begins with an exchange is held up by its first pause. -/
theorem lingers_begin (hnone : s.pauses k = []) (spec : Spec α) :
    Lingers k (s.begin k spec).2.pausing s (s.begin k spec).1 := by
  have henrol : Lingers k false s (s.enrol spec) := by
    refine lingers_of_nil ?_ hnone _
    rfl
  have hseek := henrol.trans (lingers_seekOpen henrol.pauses_eq_nil)
  have hpart := lingers_stageAfter (lingers_proceed hseek s.correlator.next spec)
    s.correlator.next (decide (spec.timeout = 0))
  rw [begin_eq]
  generalize stageAfter k s.correlator.next (decide (spec.timeout = 0)) _ = p at hpart ⊢
  obtain ⟨s₁, stage⟩ := p
  have harm : (s₁.arm spec.timeout (.giveUp k)).pauses = s₁.pauses := by
    funext j
    simp [pauses_arm]
  have hall : Lingers k stage.pausing s (s₁.arm spec.timeout (.giveUp k)) :=
    hpart.trans (lingers_of_pauses_eq harm hpart.own)
  cases stage with
  | waiting => exact hpart
  | _ => exact hall

/-- A caller at its exchange is held up by the pause of its stage. -/
theorem lingers_stride {c : Caller α ρ} (h : s.Sits c.id c.stage) (exchange : Nat)
    (spec : Spec α) :
    Lingers c.id (s.stride c exchange spec).2.pausing s (s.stride c exchange spec).1 := by
  by_cases hstage : c.stage = .waiting
  · rw [stride_of_waiting hstage]
    exact lingers_of_pauses_eq rfl (hstage ▸ h)
  · rw [stride_of_underway hstage]
    exact lingers_stageAfter (lingers_deliver h exchange spec) exchange c.late

end Lingers

/-! ### A whole turn -/

/-- In its turn the caller `k` leaves the pauses of all others as they are, and it has none left
but that of the stage it has come to. -/
structure Paces (k : Nat) (s s' : Switchboard α ρ) : Prop where
  others : ∀ j, j ≠ k → s'.pauses j = s.pauses j
  own : s'.pauses k = [] ∨ ∃ d ∈ s'.callers, d.id = k ∧ s'.Sits k d.stage

/-- A caller is kept at the stage it has come to. -/
theorem Lingers.keep {s s' : Switchboard α ρ} {c : Caller α ρ}
    (h : Lingers c.id c.stage.pausing s s') (hnd : (s'.callers.map Caller.id).Nodup) :
    Paces c.id s (s'.keep c) where
  others := h.others
  own := .inr ⟨c, (mem_keep hnd).mpr (.inl rfl), rfl, h.own⟩

/-- A caller that answers has no pause left. -/
theorem Lingers.finish {k : Nat} {held : Bool} {s s' : Switchboard α ρ}
    (h : Lingers k held s s') (label : String) (r : ρ) : Paces k s (s'.finish k label r) where
  others := (h.disarm false).others
  own := .inl (s'.pauses_disarm_self k)

/-- A plan leaves its caller at most the pause of its stage. -/
theorem paces_pursue {s : Switchboard α ρ} {k : Nat} (hi : s.Idle k) (hnone : s.pauses k = [])
    (label : String) {n : Nat} (plan : Plan α ρ n) : Paces k s (s.pursue k label plan) := by
  induction plan generalizing s with
  | report r => exact (lingers_of_nil rfl hnone false).finish label r
  | exchange spec next ih =>
    obtain ⟨hturn, hfits⟩ := begin_spec hi label spec (.exchange s.correlator.next spec _ next)
    have hbegin := lingers_begin hnone spec
    rw [pursue_exchange]
    generalize s.begin k spec = p at hturn hfits hbegin ⊢
    obtain ⟨s₁, stage⟩ := p
    cases hend : s₁.ending? s.correlator.next stage with
    | none =>
      exact Lingers.keep
        (c := ⟨k, label, stage, false, .exchange s.correlator.next spec _ next⟩)
        hbegin (hturn.callers hi.ids_nodup).1
    | some r =>
      obtain ⟨rfl, -⟩ := ending?_eq_some_iff.mp hend
      have hrest := ih r (hi.of_spares hturn (hfits.settled rfl).disarmed) hbegin.pauses_eq_nil
      exact ⟨fun j hj => (hrest.others j hj).trans (hbegin.others j hj), hrest.own⟩

/-- So does a turn. -/
theorem paces_tend {s : Switchboard α ρ} {c : Caller α ρ} (h : s.OrderlyBut (some c.id))
    (hp : ∀ ex spec, c.goal.errand? = some (ex, spec) → s.Poised c ex spec)
    (hs : s.Sits c.id c.stage) : Paces c.id s (s.tend c) := by
  cases hg : c.goal with
  | readiness tell =>
    have haccess := lingers_access hs
    have hnd := (((s.aside_access c.stage).spares_nil c.id).callers h.ids_nodup).1
    rw [tend_readiness s hg]
    generalize s.access c.stage = p at haccess hnd ⊢
    obtain ⟨s₁, access⟩ := p
    cases access with
    | blocked stage => exact Lingers.keep (c := { c with stage := stage }) haccess hnd
    | granted readiness => exact haccess.finish c.label _
    | refused e => exact haccess.finish c.label _
  | exchange ex spec n next =>
    obtain ⟨hturn, hfits, -⟩ := stride_spec h.sound (hp ex spec (by rw [hg, Goal.errand?]))
    have hstride := lingers_stride hs ex spec
    rw [tend_exchange s hg]
    generalize s.stride c ex spec = p at hturn hfits hstride ⊢
    obtain ⟨s₁, stage⟩ := p
    cases hend : s₁.ending? ex stage with
    | none =>
      exact Lingers.keep (c := { c with stage := stage }) hstride (hturn.callers h.ids_nodup).1
    | some r =>
      obtain ⟨rfl, -⟩ := ending?_eq_some_iff.mp hend
      have hrest := paces_pursue (h.idle_of_turn hturn (hfits.settled rfl).disarmed)
        hstride.pauses_eq_nil c.label (next r)
      exact ⟨fun j hj => (hrest.others j hj).trans (hstride.others j hj), hrest.own⟩

/-- And a demand for an open link. -/
theorem paces_ensureOpen {s : Switchboard α ρ} (h : s.Orderly) (hnone : s.pauses s.next = [])
    (label : String) (tell : Except OperationError Readiness → ρ) :
    Paces s.next s.enlist (s.ensureOpen label tell) := by
  have hseek := lingers_seekOpen (s := s.enlist) (k := s.next) hnone
  have hnd := (((s.enlist.aside_seekOpen s.next).spares_nil s.next).callers h.ids_nodup).1
  rw [ensureOpen_eq]
  generalize s.enlist.seekOpen s.next = p at hseek hnd ⊢
  obtain ⟨s₁, access⟩ := p
  cases access with
  | blocked stage =>
    exact Lingers.keep (c := ⟨s.next, label, stage, false, .readiness tell⟩) hseek hnd
  | granted readiness => exact hseek.finish label _
  | refused e => exact hseek.finish label _

/-- A caller that is stopped leaves no pause behind. -/
theorem paces_stop (s : Switchboard α ρ) (c : Caller α ρ) :
    Paces c.id s ((s.stopAt c.stage).dismiss c.id) where
  others j hj := ((s.stopAt c.stage).pauses_disarm_of_ne hj).trans
    (congrFun (pauses_of_timers_eq (s.timers_stopAt c.stage)) j)
  own := .inl (pauses_disarm_self _ c.id)

/-! ### Nobody sits out two pauses -/

/-- Whoever has a pause left is a caller at a stage that is such a pause, and has no other one
left. -/
def Restful (s : Switchboard α ρ) : Prop :=
  ∀ k, s.pauses k = [] ∨ ∃ c ∈ s.callers, c.id = k ∧ s.Sits k c.stage

section Restful

variable {s s' : Switchboard α ρ}

/-- At the start nobody pauses. -/
theorem restful_start (cap : Nat) (manual : Bool) :
    (start cap manual : Switchboard α ρ).Restful :=
  fun _ => .inl rfl

/-- Every caller has at most the pause of its stage left. -/
theorem Restful.sits (h : s.Restful) (hnd : (s.callers.map Caller.id).Nodup) {c : Caller α ρ}
    (hc : c ∈ s.callers) : s.Sits c.id c.stage := by
  rcases h c.id with hnone | ⟨d, hd, hid, hsits⟩
  · simp [Sits, hnone]
  · rwa [eq_of_id_eq hnd hd hc hid] at hsits

/-- Nobody else has any. -/
theorem Restful.pauses_eq_nil (h : s.Restful) {k : Nat} (hgone : ∀ c ∈ s.callers, c.id ≠ k) :
    s.pauses k = [] :=
  (h k).resolve_right fun ⟨c, hc, hid, _⟩ => hgone c hc hid

/-- The turn of a caller, which begins at a state with the same pauses. -/
theorem Restful.of_turn (h : s.Restful) {s₀ : Switchboard α ρ} {k : Nat}
    (hpaces : Paces k s₀ s') (h₀ : s₀.pauses = s.pauses)
    (hcallers : ∀ d, d.id ≠ k → (d ∈ s'.callers ↔ d ∈ s.callers)) : s'.Restful := by
  intro j
  by_cases hj : j = k
  · exact hj ▸ hpaces.own
  · have hsame : s'.pauses j = s.pauses j := (hpaces.others j hj).trans (congrFun h₀ j)
    rw [hsame]
    refine (h j).imp_right ?_
    rintro ⟨c, hc, rfl, hsits⟩
    refine ⟨c, (hcallers c hj).mpr hc, rfl, ?_⟩
    rwa [Sits, hsame]

/-- The watch over an exchange is not a caller's pause. -/
theorem Passes.pauses_eq {expired : List Nat} (h : Passes expired s s') :
    s'.pauses = s.pauses := by
  obtain ⟨more, heq, hall⟩ := h.timers
  have hnone : ∀ k, more.filter (·.alarm = .ripen k) = [] := fun k =>
    List.filter_eq_nil_iff.mpr fun t ht => by
      obtain ⟨id, ha⟩ := hall t ht
      simp [ha]
  funext k
  rw [pauses, heq, List.filter_append, hnone k, List.append_nil, pauses]

/-- So it is after an event without the clock. -/
theorem Restful.occurs (h : s.Restful) (ho : s.Orderly) {e : Event α ρ} (hs : Occurs s e s') :
    s'.Restful := by
  have hnewcomer : s.pauses s.next = [] :=
    h.pauses_eq_nil fun c hc => Nat.ne_of_lt (ho.ids_lt c hc)
  cases hs with
  | pass hp _ =>
    intro k
    simp only [Sits, hp.pauses_eq, hp.callers_eq]
    exact h k
  | resume hr => exact h
  | @turn c rest hr hc =>
    have hpop := orderlyBut_pop ho hr
    have hp : ∀ ex spec, c.goal.errand? = some (ex, spec) →
        ({ s with ready := rest } : Switchboard α ρ).Poised c ex spec :=
      fun ex spec he => poised_of_ready ho hr hc he
    exact h.of_turn (paces_tend hpop hp (h.sits ho.ids_nodup hc)) rfl
      ((spares_tend hpop hp).callers ho.ids_nodup).2
  | launch label plan =>
    have hi := idle_enlist ho
    exact h.of_turn (paces_pursue hi hnewcomer label plan) rfl
      ((spares_pursue hi label plan).callers ho.ids_nodup).2
  | ensureOpen label tell =>
    exact h.of_turn (paces_ensureOpen ho hnewcomer label tell) rfl
      ((s.spares_ensureOpen label tell).callers ho.ids_nodup).2
  | listen label m timeout tell =>
    have hlisten : Paces s.next s (s.listen label m timeout tell) :=
      ⟨fun _ _ => rfl, .inl hnewcomer⟩
    exact h.of_turn hlisten rfl ((s.spares_listen label m timeout tell).callers ho.ids_nodup).2
  | @leave _ c hc hnone =>
    exact h.of_turn (s.paces_stop c) rfl ((s.spares_stop c).callers ho.ids_nodup).2

/-- When the clock goes on, pauses come to their end. -/
theorem Ticked.pauses_eq {instant : Nat} (h : s.Ticked instant s') (k : Nat) :
    s'.pauses k = (s.pauses k).filter (s'.now < ·) := by
  rw [pauses, h.timers_eq, pauses, List.filter_map, List.filter_filter, List.filter_filter]
  congr 2
  funext t
  exact Bool.and_comm _ _

/-- A caller whose pause is not over when the clock has gone on is at the stage where it was. -/
theorem Restful.ticked (h : s.Restful) {instant : Nat} (ht : s.Ticked instant s') :
    s'.Restful := by
  intro k
  obtain ⟨f, hmap, hf⟩ := ht.callers
  rcases h k with hnone | ⟨c, hc, rfl, hsits⟩
  · exact .inl (by rw [ht.pauses_eq, hnone, List.filter_nil])
  · obtain ⟨hcd, hstage, -⟩ := hf c
    have hle : (s'.pauses c.id).length ≤ (s.pauses c.id).length := by
      rw [ht.pauses_eq]
      exact List.length_filter_le _ _
    rcases hstage with hsame | ⟨⟨t, hmem, hdue, ha⟩, -⟩
    · refine .inr ⟨f c, hmap ▸ List.mem_map_of_mem hc, hcd.id_eq.symm, ?_⟩
      rw [Sits, hsame]
      exact Nat.le_trans hle hsits
    · -- its one pause is over
      refine .inl ?_
      have hdues : t.due ∈ s.pauses c.id := mem_pauses_iff.mpr ⟨t, hmem, ha, rfl⟩
      have hone : s.pauses c.id = [t.due] := by
        have hlen : (s.pauses c.id).length ≤ 1 := Nat.le_trans hsits (Bool.toNat_le _)
        obtain ⟨due, heq⟩ := List.length_eq_one_iff.mp
          (Nat.le_antisymm hlen (List.length_pos_of_mem hdues))
        rw [heq] at hdues ⊢
        rw [List.mem_singleton.mp hdues]
      rw [ht.pauses_eq, hone]
      simpa using hdue

end Restful

/-- And after any event. -/
theorem Restful.occur {s : Switchboard α ρ} (h : s.Restful) (ho : s.Orderly) (e : Event α ρ) :
    (s.occur e).Restful := by
  by_cases he : ∃ instant, e = .tick instant
  · obtain ⟨instant, rfl⟩ := he
    exact h.ticked (s.ticked_tick instant)
  · exact h.occurs ho (occurs_occur ho fun instant heq => he ⟨instant, heq⟩)

/-- And after any events. -/
theorem Restful.after {s : Switchboard α ρ} (h : s.Restful) (ho : s.Orderly)
    (events : List (Event α ρ)) : (s.after events).Restful := by
  induction events generalizing s with
  | nil => exact h
  | cons e rest ih => exact ih (h.occur ho e) (ho.after [e])

/-! ### Moves -/

/-- The event that is most like a move; a signal that is handled by itself was collected. -/
def Move.event : Move α ρ → Event α ρ
  | .act step _ => .act step
  | .next => .next
  | .tick instant => .tick instant
  | .hush => .hush
  | .deliver => .collect
  | .intrude _ => .collect

/-- Every move is an event of some kind, or it is the clock going on. -/
theorem occurs_move {s : Switchboard α ρ} (ho : s.Orderly) {m : Move α ρ}
    (hm : ∀ instant, m ≠ .tick instant) : Occurs s m.event (s.move m) := by
  cases m with
  | act step plain =>
    rw [move, ← s.occur_act_of_plain plain]
    exact occurs_act ho step
  | next =>
    rw [move]
    split
    · next rest hr => exact occurs_of_passes (passes_pop hr fun _ _ heq => by cases heq)
    · exact occurs_next ho
  | tick instant => exact absurd rfl (hm instant)
  | deliver =>
    rw [move]
    split
    · next x rest hin =>
      have htaken := (s.aside_inbox rest).passes rfl
      exact occurs_of_passes (htaken.trans (passes_handle (htaken.sound ho.sound) x))
    · exact .refl s _
  | hush => exact occurs_occur ho fun _ heq => by cases heq
  | intrude x => exact occurs_of_passes (passes_handle ho.sound x)

/-- And after a move. -/
theorem Restful.move {s : Switchboard α ρ} (h : s.Restful) (ho : s.Orderly) (m : Move α ρ) :
    (s.move m).Restful := by
  by_cases hm : ∃ instant, m = .tick instant
  · obtain ⟨instant, rfl⟩ := hm
    exact h.ticked (s.ticked_tick instant)
  · exact h.occurs ho (occurs_move ho fun instant heq => hm ⟨instant, heq⟩)

/-- Nobody sits out two pauses at a time. -/
theorem restful_play {s : Switchboard α ρ} (h : s.Restful) (ho : s.Orderly)
    (moves : List (Move α ρ)) : (s.play moves).Restful := by
  induction moves generalizing s with
  | nil => exact h
  | cons m rest ih => exact ih (h.move ho m) (orderly_move ho m)

end Switchboard

end VenueLink

import VenueLink.Proofs.Switchboard.Turn

/-!
# Where a caller stands

A caller that runs an exchange is either underway with its request, or it waits for the end. The
two are told apart by what has happened: as long as a caller is underway its request has not
been sent, its exchange has not run into the deadline, and something will stop it at that
deadline; once it waits, the request of an exchange that is open has been sent, or else the
deadline has come. `Fits` says that a caller stands to its exchange in this way.

## Main results

* `Spares.fits`: the turn of another caller leaves a caller where it stands.
* `stageAfter_spec`, `begin_spec`, `stride_spec`: where a caller stands after each part of its
  turn.
* `spares_pursue`, `fits_pursue`: what becomes of a caller that starts on a plan.
-/

namespace VenueLink

open Exchange Correlator

variable {α ρ : Type}

/-- The exchange that a goal is the end of, with what it is about. -/
def Goal.errand? : Goal α ρ → Option (Nat × Spec α)
  | readiness _ => none
  | exchange id spec _ _ => some (id, spec)

/-- A caller is at an exchange exactly if it has an errand there. -/
theorem Goal.exchange?_eq_some_iff {g : Goal α ρ} {ex : Nat} :
    g.exchange? = some ex ↔ ∃ spec, g.errand? = some (ex, spec) := by
  cases g <;> simp [exchange?, errand?]

namespace Switchboard

/-! ### How a caller stands to its exchange -/

/-- The deadline of an exchange has come. -/
def Lapsed (s : Switchboard α ρ) (ex : Nat) : Prop :=
  ∃ deadline, s.correlator.deadline? ex = some deadline ∧ deadline ≤ s.now

/-- An exchange is registered, and if it was answered, then by a message that its matcher
accepts. -/
structure Known (s : Switchboard α ρ) (ex : Nat) (spec : Spec α) : Prop where
  registered : ex < s.correlator.next
  matcher : ∀ e ∈ s.correlator.entries, e.id = ex → e.matcher = spec.matcher
  answered : ∀ o m, s.correlator.outcome? ex = some o → o.resolution = .matched m →
    spec.matcher.accepts m.raw ∧ m.value = spec.matcher.answer m.raw

/-- The request of the exchange is still to be delivered. -/
structure Underway (s : Switchboard α ρ) (k : Nat) (late : Bool) (ex : Nat) : Prop where
  unsent : ex ∉ s.requests
  unexpired : .expire ex ∉ s.ready
  untimed : ∀ o, s.correlator.outcome? ex = some o →
    ∀ seen, o.resolution ≠ .failed ⟨.timeout, seen⟩
  lapsed : late → s.Lapsed ex
  due : ∀ t ∈ s.timers, t.alarm = .giveUp k → s.correlator.deadline? ex = some t.due

/-- A caller will be stopped at its deadline, or is about to be. -/
def Guarded (s : Switchboard α ρ) (k : Nat) (late : Bool) : Prop :=
  late ∧ .caller k ∈ s.ready ∨ ∃ t ∈ s.timers, t.alarm = .giveUp k

/-- Nothing is left to do for the exchange but to wait for its end. -/
structure Settled (s : Switchboard α ρ) (k ex : Nat) (spec : Spec α) : Prop where
  disarmed : ∀ t ∈ s.timers, t.alarm ≠ .giveUp k
  sent : ex ∈ s.correlator.pendingIds → ex ∈ s.requests ∨ spec.request = .null ∨ s.Lapsed ex

/-- A caller stands to its exchange as it should. -/
structure Fits (s : Switchboard α ρ) (c : Caller α ρ) (ex : Nat) (spec : Spec α) : Prop where
  known : s.Known ex spec
  underway : c.stage ≠ .waiting → s.Underway c.id c.late ex ∧ s.Guarded c.id c.late
  settled : c.stage = .waiting → s.Settled c.id ex spec

/-! ### What a turn leaves as it is -/

section Spares

variable {k : Nat} {sent : List Nat} {s s' : Switchboard α ρ} (h : Spares k sent s s')
include h

/-- Deadlines stay. -/
theorem Spares.deadline? {ex deadline : Nat} (hd : s.correlator.deadline? ex = some deadline) :
    s'.correlator.deadline? ex = some deadline :=
  deadline?_of_prefix h.deadlines hd

/-- What has lapsed remains so. -/
theorem Spares.lapsed {ex : Nat} : s.Lapsed ex → s'.Lapsed ex := by
  rintro ⟨deadline, hd, hle⟩
  exact ⟨deadline, h.deadline? hd, h.now_eq ▸ hle⟩

/-- What has been sent remains so. -/
theorem Spares.mem_requests {ex : Nat} (hmem : ex ∈ s.requests) : ex ∈ s'.requests := by
  obtain ⟨more, heq, -⟩ := h.requests
  exact heq ▸ List.mem_append_left _ hmem

/-- What has not been sent is not, unless it is sent now. -/
theorem Spares.not_mem_requests {ex : Nat} (hmem : ex ∉ s.requests) (hsent : ex ∉ sent)
    (hlt : ex < s.correlator.next) : ex ∉ s'.requests := by
  obtain ⟨more, heq, -, hall⟩ := h.requests
  rw [heq, List.mem_append]
  rintro (hold | hnew)
  · exact hmem hold
  · rcases hall ex hnew with hs | hge
    · exact hsent hs
    · omega

/-- No exchange is opened again. -/
theorem Spares.pending {ex : Nat} (hlt : ex < s.correlator.next)
    (hp : ex ∈ s'.correlator.pendingIds) : ex ∈ s.correlator.pendingIds := by
  obtain ⟨e, he, rfl⟩ := List.mem_map.mp hp
  exact List.mem_map_of_mem (h.entries e he hlt)

/-- An outcome is never changed by a turn. -/
theorem Spares.outcome?_mono {ex : Nat} {o : Outcome α}
    (ho : s.correlator.outcome? ex = some o) : s'.correlator.outcome? ex = some o := by
  obtain ⟨more, heq, -⟩ := h.outcomes
  exact outcome?_of_prefix (heq ▸ List.prefix_append _ _) ho

/-- An exchange that ends during a turn could not be delivered. -/
theorem Spares.outcome?_cases {ex : Nat} {o : Outcome α}
    (ho : s'.correlator.outcome? ex = some o) :
    s.correlator.outcome? ex = some o ∨
      ∃ seen, o.resolution = .failed ⟨.connectionLost, seen⟩ := by
  obtain ⟨more, heq, hall⟩ := h.outcomes
  rw [outcome?] at ho
  rw [heq, List.find?_append] at ho
  rcases Option.or_eq_some_iff.mp ho with hold | ⟨-, hnew⟩
  · exact .inl hold
  · exact .inr (hall o (List.mem_of_find?_eq_some hnew))

/-- What is ready remains so. -/
theorem Spares.mem_ready {t : Task} (ht : t ∈ s.ready) : t ∈ s'.ready := by
  obtain ⟨more, heq, -⟩ := h.ready
  exact heq ▸ List.mem_append_left _ ht

/-- No exchange is about to expire that was not. -/
theorem Spares.unexpired {ex : Nat} (hex : .expire ex ∉ s.ready) : .expire ex ∉ s'.ready := by
  obtain ⟨more, heq, hno⟩ := h.ready
  rw [heq, List.mem_append]
  exact fun hmem => hmem.elim hex (hno ex)

/-- An exchange that is known remains so. -/
theorem Spares.known {ex : Nat} {spec : Spec α} (hk : s.Known ex spec) : s'.Known ex spec where
  registered := Nat.lt_of_lt_of_le hk.registered h.next_le
  matcher e he hid := hk.matcher e (h.entries e he (hid ▸ hk.registered)) hid
  answered o m ho hm := by
    rcases h.outcome?_cases ho with hold | ⟨seen, hlost⟩
    · exact hk.answered o m hold hm
    · rw [hlost] at hm
      cases hm

/-- A turn of another caller leaves a caller underway with its request. -/
theorem Spares.underway {j ex : Nat} {late : Bool} (hne : j ≠ k) (hsent : ex ∉ sent)
    (hlt : ex < s.correlator.next) (hu : s.Underway j late ex) : s'.Underway j late ex where
  unsent := h.not_mem_requests hu.unsent hsent hlt
  unexpired := h.unexpired hu.unexpired
  untimed o ho seen := by
    rcases h.outcome?_cases ho with hold | ⟨seen', hlost⟩
    · exact hu.untimed o hold seen
    · rw [hlost]
      simp
  lapsed hlate := h.lapsed (hu.lapsed hlate)
  due t ht ha := by
    rcases h.timers_new t ht with hold | ⟨-, hk⟩
    · exact h.deadline? (hu.due t hold ha)
    · exact absurd (hk j ha) hne

/-- Another caller that will be stopped at its deadline still will. -/
theorem Spares.guarded {j : Nat} {late : Bool} (hne : j ≠ k) :
    s.Guarded j late → s'.Guarded j late := by
  rintro (⟨hlate, hready⟩ | ⟨t, ht, ha⟩)
  · exact .inl ⟨hlate, h.mem_ready hready⟩
  · refine .inr ⟨t, h.timers_kept t ht ?_, ha⟩
    rw [ha]
    simpa [Alarm.caller?] using hne

/-- Another caller that has nothing left to do for its exchange still has not. -/
theorem Spares.settled {j ex : Nat} {spec : Spec α} (hne : j ≠ k) (hlt : ex < s.correlator.next)
    (hw : s.Settled j ex spec) : s'.Settled j ex spec where
  disarmed t ht ha := by
    rcases h.timers_new t ht with hold | ⟨-, hk⟩
    · exact hw.disarmed t hold ha
    · exact hne (hk j ha)
  sent hp := by
    rcases hw.sent (h.pending hlt hp) with hs | hn | hl
    · exact .inl (h.mem_requests hs)
    · exact .inr (.inl hn)
    · exact .inr (.inr (h.lapsed hl))

/-- A turn of another caller leaves a caller where it stands. -/
theorem Spares.fits {c : Caller α ρ} {ex : Nat} {spec : Spec α} (hne : c.id ≠ k)
    (hsent : ex ∉ sent) (hf : s.Fits c ex spec) : s'.Fits c ex spec where
  known := h.known hf.known
  underway hstage :=
    ⟨h.underway hne hsent hf.known.registered (hf.underway hstage).1,
      h.guarded hne (hf.underway hstage).2⟩
  settled hstage := h.settled hne hf.known.registered (hf.settled hstage)

end Spares

/-! ### The parts of a turn -/

/-- A caller is about to start on something: the exchanges are in order, and none of its timers
is left. -/
structure Idle (s : Switchboard α ρ) (k : Nat) : Prop where
  sound : s.correlator.Sound
  requests_lt : ∀ id ∈ s.requests, id < s.correlator.next
  expire_lt : ∀ id, .expire id ∈ s.ready → id < s.correlator.next
  ids_nodup : (s.callers.map Caller.id).Nodup
  disarmed : ∀ t ∈ s.timers, t.alarm ≠ .giveUp k

/-- Only exchanges that are registered are about to expire. -/
theorem Spares.expire_lt {k : Nat} {sent : List Nat} {s s' : Switchboard α ρ}
    (h : Spares k sent s s') (hlt : ∀ id, .expire id ∈ s.ready → id < s.correlator.next)
    (id : Nat) (hmem : .expire id ∈ s'.ready) : id < s'.correlator.next := by
  by_contra hge
  have hold : .expire id ∉ s.ready := fun hold =>
    hge (Nat.lt_of_lt_of_le (hlt id hold) h.next_le)
  exact h.unexpired hold hmem

/-- A caller that may start on something still may, if it has no timer then. -/
theorem Idle.of_spares {k : Nat} {sent : List Nat} {s s' : Switchboard α ρ} (hi : s.Idle k)
    (h : Spares k sent s s') (hd : ∀ t ∈ s'.timers, t.alarm ≠ .giveUp k) : s'.Idle k where
  sound := h.sound hi.sound
  requests_lt := h.requests_lt hi.requests_lt
  expire_lt := h.expire_lt hi.expire_lt
  ids_nodup := (h.callers hi.ids_nodup).1
  disarmed := hd

/-- What is sent for a new exchange was not sent for an earlier one. -/
theorem Spares.of_new {k : Nat} {sent : List Nat} {s s' : Switchboard α ρ}
    (h : Spares k sent s s') (hnew : ∀ id ∈ sent, s.correlator.next ≤ id) :
    Spares k [] s s' where
  __ := h
  requests := by
    obtain ⟨more, heq, -, hall⟩ := h.requests
    refine ⟨more, heq, List.nil_subset _, fun id hid => .inr ?_⟩
    exact (hall id hid).elim (hnew id) fun hle => hle

/-- Failing an exchange leaves it closed. -/
theorem not_pending_failExchange {s : Switchboard α ρ} (hs : s.correlator.Sound) (ex : Nat) :
    ex ∉ (s.failExchange ex).correlator.pendingIds := by
  by_cases hp : ex ∈ s.correlator.pendingIds
  · obtain ⟨e, he, rfl⟩ := List.mem_map.mp hp
    have hends := ends_fail hs s.now he .connectionLost
    have ho := hends.outcome?_of_mem hs (List.mem_singleton.mpr rfl)
    intro hp'
    have hnone := (hs.of_ends hends).outcome?_of_pending hp'
    exact absurd (ho.symm.trans hnone) (by simp)
  · rwa [failExchange, fail_of_not_pending hp]

/-- The timer of a caller is gone once that has taken it back. -/
theorem disarmed_disarm (s : Switchboard α ρ) (k : Nat) :
    ∀ t ∈ (s.disarm k).timers, t.alarm ≠ .giveUp k := by
  intro t ht ha
  have := (List.mem_filter.mp ht).2
  rw [ha] at this
  simp [Alarm.caller?] at this

/-- What comes of a delivery: a caller that goes on to wait has sent its request, or closed its
exchange, or is late; any other one has changed nothing yet and is not late. -/
theorem stageAfter_spec {s s' : Switchboard α ρ} {ex : Nat} {d : Delivery}
    (hs : s.correlator.Sound) (h : s.Aside (d.sent ex) s') (hd : d.Underway)
    (hex : ex < s.correlator.next) (k : Nat) (late : Bool) :
    Spares k (d.sent ex) s (stageAfter k ex late (s', d)).1 ∧
    ((stageAfter k ex late (s', d)).2 = .waiting →
      (∀ t ∈ (stageAfter k ex late (s', d)).1.timers, t.alarm ≠ .giveUp k) ∧
      (ex ∈ (stageAfter k ex late (s', d)).1.requests ∨
        ex ∉ (stageAfter k ex late (s', d)).1.correlator.pendingIds ∨ late = true)) ∧
    ((stageAfter k ex late (s', d)).2 ≠ .waiting →
      late = false ∧ s.Aside [] (stageAfter k ex late (s', d)).1) := by
  have hsent : ∀ id ∈ d.sent ex, id < s.correlator.next := by
    intro id hid
    cases d with
    | delivered => exact List.mem_singleton.mp hid ▸ hex
    | blocked stage => exact absurd hid List.not_mem_nil
    | failed e => exact absurd hid List.not_mem_nil
  have hturn := h.spares k hsent
  cases d with
  | blocked stage =>
    cases late with
    | true =>
      have hstop := (aside_stopAt s' stage).spares_nil k
      refine ⟨hturn.then_nil (hstop.then_nil (spares_disarm _ k)), fun _ => ?_, fun hne => ?_⟩
      · exact ⟨disarmed_disarm _ k, .inr (.inr rfl)⟩
      · exact absurd rfl hne
    | false => exact ⟨hturn, fun heq => absurd heq hd, fun _ => ⟨rfl, h⟩⟩
  | delivered =>
    refine ⟨hturn.then_nil (spares_disarm _ k), fun _ => ⟨disarmed_disarm _ k, .inl ?_⟩,
      fun hne => absurd rfl hne⟩
    change ex ∈ s'.requests
    rw [h.requests_eq]
    exact List.mem_append_right _ (List.mem_singleton.mpr rfl)
  | failed e =>
    have hfail := spares_failExchange (hturn.sound hs) k ex
    refine ⟨hturn.then_nil (hfail.then_nil (spares_disarm _ k)),
      fun _ => ⟨disarmed_disarm _ k, ?_⟩, fun hne => absurd rfl hne⟩
    exact .inr (.inl (not_pending_failExchange (hturn.sound hs) ex))

/-- A request that is still to be delivered still is. -/
theorem Underway.of_aside {s s' : Switchboard α ρ} (h : s.Aside [] s') {k ex : Nat}
    {late : Bool} (hu : s.Underway k late ex) : s'.Underway k late ex where
  unsent := by
    rw [h.requests_eq, List.append_nil]
    exact hu.unsent
  unexpired := (h.spares_nil k).unexpired hu.unexpired
  untimed := h.correlator_eq ▸ hu.untimed
  lapsed hlate := (h.spares_nil k).lapsed (hu.lapsed hlate)
  due t ht ha := by
    obtain ⟨more, heq, hmore⟩ := h.timers
    rw [heq] at ht
    rw [h.correlator_eq]
    rcases List.mem_append.mp ht with hold | hnew
    · exact hu.due t hold ha
    · exact absurd ha ((hmore t hnew).2 k)

/-- The switchboard with one more exchange. -/
def enrol (s : Switchboard α ρ) (spec : Spec α) : Switchboard α ρ :=
  s.register spec.matcher spec.timeout

/-- A caller with a new exchange has no timer yet. -/
theorem Idle.enrol {s : Switchboard α ρ} {k : Nat} (hi : s.Idle k) (spec : Spec α) :
    (s.enrol spec).Idle k :=
  hi.of_spares (s.spares_register k spec.matcher spec.timeout) hi.disarmed

/-- Its exchange takes the next number. -/
theorem next_enrol (s : Switchboard α ρ) (spec : Spec α) :
    (s.enrol spec).correlator.next = s.correlator.next + 1 :=
  next_register _ _ _ _

/-- And has its deadline from the present instant on. -/
theorem deadline?_enrol (s : Switchboard α ρ) (spec : Spec α) :
    (s.enrol spec).correlator.deadline? s.correlator.next = some (s.now + spec.timeout) := by
  simp [Switchboard.enrol, Correlator.register, Correlator.deadline?, Correlator.next]

/-- A new exchange has no outcome. -/
theorem outcome?_next {c : Correlator α} (h : c.Sound) : c.outcome? c.next = none := by
  cases ho : c.outcome? c.next with
  | none => rfl
  | some o => exact absurd (h.lt_of_outcome? ho) (Nat.lt_irrefl _)

/-- And is known from then on. -/
theorem known_enrol {s : Switchboard α ρ} (hs : s.correlator.Sound) (spec : Spec α) :
    (s.enrol spec).Known s.correlator.next spec where
  registered := by
    rw [next_enrol]
    exact Nat.lt_succ_self _
  matcher e he hid := by
    rcases List.mem_append.mp he with hold | hnew
    · have := hs.lt_of_pending (List.mem_map_of_mem hold)
      omega
    · obtain rfl := List.mem_singleton.mp hnew
      rfl
  answered o m ho _ := by
    have : (s.enrol spec).correlator.outcome? s.correlator.next = none := outcome?_next hs
    rw [this] at ho
    cases ho

/-- The caller of a new exchange is underway with its request. -/
theorem underway_enrol {s : Switchboard α ρ} {k : Nat} (hi : s.Idle k) (spec : Spec α) :
    (s.enrol spec).Underway k false s.correlator.next where
  unsent hmem := Nat.lt_irrefl _ (hi.requests_lt _ hmem)
  unexpired := (s.spares_register k spec.matcher spec.timeout).unexpired fun hmem =>
    Nat.lt_irrefl _ (hi.expire_lt _ hmem)
  untimed o ho := by
    have : (s.enrol spec).correlator.outcome? s.correlator.next = none := outcome?_next hi.sound
    rw [this] at ho
    cases ho
  lapsed := by simp
  due t ht ha := absurd ha (hi.disarmed t ht)

/-- A caller underway that sets a timer for its deadline is guarded by it. -/
theorem fits_arm {s : Switchboard α ρ} {k ex : Nat} {spec : Spec α} (hk : s.Known ex spec)
    (hu : s.Underway k false ex) (ht : spec.timeout ≠ 0)
    (hd : s.correlator.deadline? ex = some (s.now + spec.timeout)) (label : String)
    {stage : Stage} (hstage : stage ≠ .waiting) (goal : Goal α ρ) :
    (s.arm spec.timeout (.giveUp k)).Fits ⟨k, label, stage, false, goal⟩ ex spec where
  known := (spares_arm ht).known hk
  underway _ := by
    refine ⟨⟨hu.unsent, hu.unexpired, hu.untimed, fun hlate => absurd hlate (by simp), ?_⟩,
      .inr ⟨⟨s.now + spec.timeout, .giveUp k⟩, ?_, rfl⟩⟩
    · intro t ht ha
      rcases List.mem_append.mp ht with hold | hnew
      · exact hu.due t hold ha
      · obtain rfl := List.mem_singleton.mp hnew
        exact hd
    · exact List.mem_append_right _ (List.mem_singleton.mpr rfl)
  settled heq := absurd heq hstage

/-- How a caller begins an exchange: the registration, then its request as far as that goes. -/
theorem begin_eq (s : Switchboard α ρ) (k : Nat) (spec : Spec α) :
    s.begin k spec =
      match stageAfter k s.correlator.next (spec.timeout = 0)
        (proceed k s.correlator.next spec ((s.enrol spec).seekOpen k)) with
      | (s, .waiting) => (s, .waiting)
      | (s, stage) => (s.arm spec.timeout (.giveUp k), stage) := by
  rw [begin]
  dsimp only [Switchboard.enrol]
  generalize stageAfter k s.correlator.next (spec.timeout = 0) _ = p
  obtain ⟨s₁, stage⟩ := p
  cases stage <;> rfl

/-- A caller that has begun an exchange stands to it as it should, and no other caller has
moved. -/
theorem begin_spec {s : Switchboard α ρ} {k : Nat} (hi : s.Idle k) (label : String)
    (spec : Spec α) (goal : Goal α ρ) :
    Spares k [] s (s.begin k spec).1 ∧
      (s.begin k spec).1.Fits ⟨k, label, (s.begin k spec).2, false, goal⟩ s.correlator.next
        spec := by
  have hknown := known_enrol hi.sound spec
  have hi₀ := hi.enrol spec
  have hpart := stageAfter_spec hi₀.sound
    (aside_proceed k s.correlator.next spec ((s.enrol spec).aside_seekOpen k))
    (underway_proceed k s.correlator.next spec ((s.enrol spec).underway_seekOpen k))
    hknown.registered k (decide (spec.timeout = 0))
  rw [begin_eq]
  generalize proceed k s.correlator.next spec ((s.enrol spec).seekOpen k) = p at hpart ⊢
  obtain ⟨s₀, d⟩ := p
  generalize stageAfter k s.correlator.next (decide (spec.timeout = 0)) (s₀, d) = q at hpart ⊢
  obtain ⟨s₁, stage⟩ := q
  obtain ⟨hspares, hwait, haway⟩ := hpart
  have hturn : Spares k [] s s₁ := by
    refine ((s.spares_register k spec.matcher spec.timeout).trans hspares).of_new
      fun id hid => ?_
    cases d with
    | delivered => exact Nat.le_of_eq (List.mem_singleton.mp hid).symm
    | blocked stage => exact absurd hid List.not_mem_nil
    | failed e => exact absurd hid List.not_mem_nil
  by_cases hstage : stage = .waiting
  · obtain rfl := hstage
    obtain ⟨hdisarmed, hsent⟩ := hwait rfl
    refine ⟨hturn, hspares.known hknown, fun hne => absurd rfl hne,
      fun _ => ⟨hdisarmed, fun hp => ?_⟩⟩
    rcases hsent with hs | hclosed | hlate
    · exact .inl hs
    · exact absurd hp hclosed
    · refine .inr (.inr (hspares.lapsed ⟨_, deadline?_enrol s spec, ?_⟩))
      have : spec.timeout = 0 := by simpa using hlate
      simp [this, Switchboard.enrol]
  · obtain ⟨hlate, haside⟩ := haway hstage
    have htimeout : spec.timeout ≠ 0 := by simpa using hlate
    have hfits := fits_arm (hspares.known hknown) ((underway_enrol hi spec).of_aside haside)
      htimeout
      (by rw [haside.correlator_eq, haside.now_eq]; exact deadline?_enrol s spec) label hstage
        goal
    have harm := hturn.then_nil (spares_arm htimeout)
    cases stage with
    | waiting => exact absurd rfl hstage
    | connecting g ripe => exact ⟨harm, hfits⟩
    | opening => exact ⟨harm, hfits⟩
    | settling ripe => exact ⟨harm, hfits⟩

/-! ### A whole turn -/

/-- Who stands to an exchange as they should is kept in their place. -/
theorem Fits.keep {s : Switchboard α ρ} {c : Caller α ρ} {ex : Nat} {spec : Spec α}
    (h : s.Fits c ex spec) (d : Caller α ρ) : (s.keep d).Fits c ex spec where
  known := ⟨h.known.registered, h.known.matcher, h.known.answered⟩
  underway hstage := by
    obtain ⟨hu, hg⟩ := h.underway hstage
    exact ⟨⟨hu.unsent, hu.unexpired, hu.untimed, hu.lapsed, hu.due⟩, hg⟩
  settled hstage := ⟨(h.settled hstage).disarmed, (h.settled hstage).sent⟩

/-- A caller that is kept is there as it is now; the others are as they were. -/
theorem mem_keep {s : Switchboard α ρ} (hnd : (s.callers.map Caller.id).Nodup)
    {c d : Caller α ρ} : d ∈ (s.keep c).callers ↔ d = c ∨ d ∈ s.callers ∧ d.id ≠ c.id :=
  mem_putCaller hnd

/-- A caller that has answered is gone. -/
theorem not_mem_finish {s : Switchboard α ρ} {k : Nat} {label : String} {r : ρ} {d : Caller α ρ}
    (hd : d ∈ (s.finish k label r).callers) : d.id ≠ k := by
  simpa using (List.mem_filter.mp hd).2

/-- A caller goes on once the exchange that it waits for has ended. -/
theorem ending?_eq_some_iff {s : Switchboard α ρ} {ex : Nat} {stage : Stage}
    {r : Resolution α} :
    s.ending? ex stage = some r ↔
      stage = .waiting ∧ ∃ o, s.correlator.outcome? ex = some o ∧ o.resolution = r := by
  cases stage <;> simp [ending?]

/-- What a plan that begins with an exchange comes to. -/
theorem pursue_exchange (s : Switchboard α ρ) (k : Nat) (label : String) {n : Nat}
    (spec : Spec α) (next : Resolution α → Plan α ρ n) :
    s.pursue k label (.exchange spec next) =
      match (s.begin k spec).1.ending? s.correlator.next (s.begin k spec).2 with
      | some r => (s.begin k spec).1.pursue k label (next r)
      | none => (s.begin k spec).1.keep
          ⟨k, label, (s.begin k spec).2, false, .exchange s.correlator.next spec n next⟩ :=
  pursue.eq_2 s k label n spec next

/-- A caller that starts on a plan moves no other caller. -/
theorem spares_pursue {s : Switchboard α ρ} {k : Nat} (hi : s.Idle k) (label : String) {n : Nat}
    (plan : Plan α ρ n) : Spares k [] s (s.pursue k label plan) := by
  induction plan generalizing s with
  | report r => exact s.spares_finish k label r
  | exchange spec next ih =>
    obtain ⟨hturn, hfits⟩ := begin_spec hi label spec
      (.exchange s.correlator.next spec _ next)
    rw [pursue_exchange]
    generalize s.begin k spec = p at hturn hfits ⊢
    obtain ⟨s₁, stage⟩ := p
    cases hend : s₁.ending? s.correlator.next stage with
    | none =>
      exact hturn.then_nil (s₁.spares_keep
        ⟨k, label, stage, false, .exchange s.correlator.next spec _ next⟩)
    | some r =>
      obtain ⟨rfl, -⟩ := ending?_eq_some_iff.mp hend
      exact hturn.then_nil (ih r (hi.of_spares hturn (hfits.settled rfl).disarmed))

/-- A caller that starts on a plan is gone at the end of its turn, or stands to a new exchange
as it should. -/
theorem fits_pursue {n : Nat} {plan : Plan α ρ n} {s : Switchboard α ρ} {k : Nat}
    (hi : s.Idle k) {label : String} {d : Caller α ρ} (hd : d ∈ (s.pursue k label plan).callers)
    (hid : d.id = k) {ex : Nat} {spec : Spec α} (he : d.goal.errand? = some (ex, spec)) :
    (s.pursue k label plan).Fits d ex spec ∧ s.correlator.next ≤ ex := by
  induction plan generalizing s with
  | report r => exact absurd hid (not_mem_finish hd)
  | exchange spec₀ next ih =>
    obtain ⟨hturn, hfits⟩ := begin_spec hi label spec₀
      (.exchange s.correlator.next spec₀ _ next)
    rw [pursue_exchange] at hd ⊢
    generalize s.begin k spec₀ = p at hturn hfits hd ⊢
    obtain ⟨s₁, stage⟩ := p
    have hnd := (hturn.callers hi.ids_nodup).1
    cases hend : s₁.ending? s.correlator.next stage with
    | none =>
      simp only [hend] at hd
      rcases (mem_keep hnd).mp hd with rfl | ⟨-, hne⟩
      · simp only [Goal.errand?, Option.some.injEq, Prod.mk.injEq] at he
        obtain ⟨rfl, rfl⟩ := he
        exact ⟨hfits.keep _, Nat.le_refl _⟩
      · exact absurd hid hne
    | some r =>
      simp only [hend] at hd
      obtain ⟨rfl, -⟩ := ending?_eq_some_iff.mp hend
      have hi₁ := hi.of_spares hturn (hfits.settled rfl).disarmed
      obtain ⟨hf, hle⟩ := ih r hi₁ hd
      exact ⟨hf, Nat.le_trans hturn.next_le hle⟩

/-- A caller whose turn it is stands to its exchange as it should, but for being awake. -/
structure Poised (s : Switchboard α ρ) (c : Caller α ρ) (ex : Nat) (spec : Spec α) : Prop where
  known : s.Known ex spec
  underway : c.stage ≠ .waiting → s.Underway c.id c.late ex
  guarded : c.stage ≠ .waiting → c.late = false → ∃ t ∈ s.timers, t.alarm = .giveUp c.id
  settled : c.stage = .waiting → s.Settled c.id ex spec

/-- How far a caller gets with the request of its exchange. -/
def stride (s : Switchboard α ρ) (c : Caller α ρ) (ex : Nat) (spec : Spec α) :
    Switchboard α ρ × Stage :=
  match c.stage with
  | .waiting => (s, .waiting)
  | stage => stageAfter c.id ex c.late (s.deliver c.id ex spec stage)

/-- A caller that waits for its exchange does nothing. -/
theorem stride_of_waiting {s : Switchboard α ρ} {c : Caller α ρ} (h : c.stage = .waiting)
    (ex : Nat) (spec : Spec α) : s.stride c ex spec = (s, .waiting) := by
  rw [stride, h]

/-- One that does not goes on with its request. -/
theorem stride_of_underway {s : Switchboard α ρ} {c : Caller α ρ} (h : c.stage ≠ .waiting)
    (ex : Nat) (spec : Spec α) :
    s.stride c ex spec = stageAfter c.id ex c.late (s.deliver c.id ex spec c.stage) := by
  rw [stride]
  cases hstage : c.stage with
  | waiting => exact absurd hstage h
  | connecting g ripe => rfl
  | opening => rfl
  | settling ripe => rfl

/-- Whoever waits for the end of an exchange sends nothing. -/
theorem deliver_waiting (s : Switchboard α ρ) (k ex : Nat) (spec : Spec α) :
    s.deliver k ex spec .waiting = (s, .blocked .waiting) :=
  rfl

/-- However far a caller gets, it stands to its exchange as it should, and no other caller has
moved. -/
theorem stride_spec {s : Switchboard α ρ} {c : Caller α ρ} {ex : Nat} {spec : Spec α}
    (hs : s.correlator.Sound) (hp : s.Poised c ex spec) :
    Spares c.id ((s.deliver c.id ex spec c.stage).2.sent ex) s (s.stride c ex spec).1 ∧
      (s.stride c ex spec).1.Fits { c with stage := (s.stride c ex spec).2 } ex spec ∧
      (c.stage = .waiting → (s.stride c ex spec).2 = .waiting) := by
  by_cases hstage : c.stage = .waiting
  · rw [stride_of_waiting hstage, hstage, deliver_waiting]
    exact ⟨(Aside.refl s).spares_nil c.id,
      ⟨hp.known, fun hne => absurd rfl hne, fun _ => hp.settled hstage⟩, fun _ => rfl⟩
  · rw [stride_of_underway hstage]
    have hpart := stageAfter_spec hs (s.aside_deliver c.id ex spec c.stage)
      (s.underway_deliver c.id ex spec hstage) hp.known.registered c.id c.late
    generalize s.deliver c.id ex spec c.stage = q at hpart ⊢
    obtain ⟨s₀, d⟩ := q
    dsimp only at hpart ⊢
    generalize stageAfter c.id ex c.late (s₀, d) = q at hpart ⊢
    obtain ⟨s₁, stage⟩ := q
    obtain ⟨hturn, hwait, haway⟩ := hpart
    refine ⟨hturn, ⟨hturn.known hp.known, fun hne => ?_, fun heq => ?_⟩,
      fun heq => absurd heq hstage⟩
    · obtain ⟨hlate, haside⟩ := haway hne
      obtain ⟨t, ht, ha⟩ := hp.guarded hstage hlate
      exact ⟨(hp.underway hstage).of_aside haside, .inr ⟨t, haside.mem_timers ht, ha⟩⟩
    · obtain ⟨hdisarmed, hsent⟩ := hwait heq
      refine ⟨hdisarmed, fun hopen => ?_⟩
      rcases hsent with hin | hclosed | hlate
      · exact .inl hin
      · exact absurd hopen hclosed
      · exact .inr (.inr (hturn.lapsed ((hp.underway hstage).lapsed hlate)))

/-- What the turn of a caller at an exchange comes to. -/
theorem tend_exchange (s : Switchboard α ρ) {c : Caller α ρ} {ex : Nat} {spec : Spec α}
    {n : Nat} {next : Resolution α → Plan α ρ n} (hg : c.goal = .exchange ex spec n next) :
    s.tend c =
      match (s.stride c ex spec).1.ending? ex (s.stride c ex spec).2 with
      | some r => (s.stride c ex spec).1.pursue c.id c.label (next r)
      | none => (s.stride c ex spec).1.keep { c with stage := (s.stride c ex spec).2 } := by
  rw [tend, hg]
  rfl

end Switchboard

end VenueLink

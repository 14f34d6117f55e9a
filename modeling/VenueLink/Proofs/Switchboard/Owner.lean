import VenueLink.Proofs.Switchboard.Occurrence

/-!
# Whose an exchange is

Every open exchange has its caller, and the turn of a caller ends no exchange but its own. A
caller that waits for an exchange that has ended has its turn ahead of it. So nobody is
forgotten: `Minded` says this, and every event keeps it.

## Main results

* `confined_tend`: a caller in its turn ends no other caller's exchange.
* `Minded.occur`, `Minded.after`: every event keeps everybody minded.
* `gone_after`: whoever is gone does not come back.
* `Occurs.timed_out`: an exchange runs into its deadline in one kind of event only.
* `exists_registers`: the exchange that a caller has come to was registered in one of the
  events, and its deadline is the instant of the registration and the time that it may take.
-/

namespace VenueLink.Switchboard

open Exchange Correlator

variable {α ρ : Type}

/-! ### A turn ends no other exchange -/

/-- Between `s` and `s'` no exchange ends that was registered before, apart from those of `own`.
-/
structure Confined (own : List Nat) (s s' : Switchboard α ρ) : Prop where
  next_le : s.correlator.next ≤ s'.correlator.next
  outcome_eq : ∀ ex < s.correlator.next, ex ∉ own →
    s'.correlator.outcome? ex = s.correlator.outcome? ex

/-- Where no exchange is touched, none ends. -/
theorem confined_of_eq {s s' : Switchboard α ρ} (h : s'.correlator = s.correlator) :
    Confined [] s s' where
  next_le := Nat.le_of_eq (congrArg Correlator.next h.symm)
  outcome_eq ex _ _ := congrArg (Correlator.outcome? · ex) h

/-- More exchanges may be allowed to end. -/
theorem Confined.mono {xs ys : List Nat} {s s' : Switchboard α ρ} (h : Confined xs s s')
    (hsub : ∀ id ∈ xs, id < s.correlator.next → id ∈ ys) : Confined ys s s' where
  next_le := h.next_le
  outcome_eq ex hlt hno := h.outcome_eq ex hlt fun hmem => hno (hsub ex hmem hlt)

/-- Two stretches one after the other. -/
theorem Confined.trans {xs : List Nat} {s₁ s₂ s₃ : Switchboard α ρ} (h₁ : Confined xs s₁ s₂)
    (h₂ : Confined xs s₂ s₃) : Confined xs s₁ s₃ where
  next_le := Nat.le_trans h₁.next_le h₂.next_le
  outcome_eq ex hlt hno := (h₂.outcome_eq ex (Nat.lt_of_lt_of_le hlt h₁.next_le) hno).trans
    (h₁.outcome_eq ex hlt hno)

/-- The second may be one in which no exchange is touched. -/
theorem Confined.of_eq {xs : List Nat} {s₁ s₂ s₃ : Switchboard α ρ} (h : Confined xs s₁ s₂)
    (heq : s₃.correlator = s₂.correlator) : Confined xs s₁ s₃ :=
  h.trans ((confined_of_eq heq).mono (by simp))

/-- An exchange that fails keeps its deadline. -/
theorem deadlines_fail (c : Correlator α) (now id : Nat) (cause : Cause) :
    (c.fail now id cause).1.deadlines = c.deadlines := by
  rw [fail]
  split
  · rw [assign]
    split <;> rfl
  · rfl

/-- Failing one exchange leaves the outcomes of the others. -/
theorem outcome?_fail_of_ne (c : Correlator α) {ex id : Nat} (hne : ex ≠ id) (now : Nat)
    (cause : Cause) : (c.fail now id cause).1.outcome? ex = c.outcome? ex := by
  have hnew :
      ∀ r, List.find? (fun o => o.id == ex) [(⟨id, now, r⟩ : Outcome α)] = none := fun r => by
    simpa using hne.symm
  rw [fail]
  split
  · rw [assign]
    split
    · rfl
    · rw [Correlator.outcome?, List.find?_append, hnew, Option.or_none]
      rfl
  · rfl

/-- A caller fails its own exchange only. -/
theorem confined_failExchange (s : Switchboard α ρ) (ex : Nat) :
    Confined [ex] s (s.failExchange ex) where
  next_le := Nat.le_of_eq (congrArg List.length (deadlines_fail _ _ _ _).symm)
  outcome_eq _ _ hno := outcome?_fail_of_ne _ (fun heq => hno (List.mem_singleton.mpr heq)) _ _

/-- A motion ends no exchange but that of the caller, and registers none. -/
theorem Motion.confined {k ex : Nat} {spec : Spec α} {s s' : Switchboard α ρ}
    (h : Motion k (some (ex, spec)) s s') :
    Confined [ex] s s' ∧ s'.correlator.deadlines = s.correlator.deadlines := by
  have hsame : s'.correlator = s.correlator →
      Confined [ex] s s' ∧ s'.correlator.deadlines = s.correlator.deadlines := fun heq =>
    ⟨(confined_of_eq heq).mono (by simp), congrArg Correlator.deadlines heq⟩
  rcases h.aside_or with haside | rfl | ⟨ex', spec', heq, hsend | rfl⟩
  · exact hsame haside.correlator_eq
  · exact hsame rfl
  · exact hsame (aside_transmit hsend).correlator_eq
  · cases heq
    exact ⟨s.confined_failExchange ex, deadlines_fail _ _ _ _⟩

/-- In its motions it ends no other exchange, and registers none. -/
theorem Motions.confined {k ex : Nat} {spec : Spec α} {s s' : Switchboard α ρ}
    (h : Motions k (some (ex, spec)) s s') :
    Confined [ex] s s' ∧ s'.correlator.deadlines = s.correlator.deadlines := by
  induction h with
  | refl => exact ⟨(confined_of_eq rfl).mono (by simp), rfl⟩
  | tail _ hlast ih => exact ⟨ih.1.trans hlast.confined.1, hlast.confined.2.trans ih.2⟩

/-- An exchange that is begun is the only one that may end, and its deadline is noted. -/
theorem confined_begin (s : Switchboard α ρ) (k : Nat) (spec : Spec α) :
    Confined [] s (s.begin k spec).1 ∧
      (s.begin k spec).1.correlator.deadlines = s.correlator.deadlines ++
        [s.now + spec.timeout] := by
  obtain ⟨s₁, hmotions, heq⟩ := exists_motions_begin k spec s
  obtain ⟨hconfined, hdeadlines⟩ := hmotions.confined
  have henrol : Confined [s.correlator.next] s (s.enrol spec) :=
    ⟨by rw [next_enrol]; exact Nat.le_succ _, fun _ _ _ => rfl⟩
  have hall : Confined [] s s₁ := (henrol.trans hconfined).mono fun id hid hlt => by
    rw [List.mem_singleton.mp hid] at hlt
    exact absurd hlt (Nat.lt_irrefl _)
  rcases heq with heq | heq <;> rw [heq] <;> exact ⟨hall.of_eq rfl, hdeadlines⟩

/-- Nor does it on the way of its exchange. -/
theorem confined_stride (s : Switchboard α ρ) (c : Caller α ρ) (ex : Nat) (spec : Spec α) :
    Confined [ex] s (s.stride c ex spec).1 ∧
      (s.stride c ex spec).1.correlator.deadlines = s.correlator.deadlines :=
  (motions_stride ex spec s c).confined

/-- A plan ends no exchange that was there before. -/
theorem confined_pursue {n : Nat} (plan : Plan α ρ n) (s : Switchboard α ρ) (k : Nat)
    (label : String) : Confined [] s (s.pursue k label plan) := by
  induction plan generalizing s with
  | report r => exact confined_of_eq rfl
  | exchange spec next ih =>
    have hbegin := (s.confined_begin k spec).1
    rw [pursue_exchange]
    generalize s.begin k spec = p at hbegin ⊢
    obtain ⟨s₁, stage⟩ := p
    cases s₁.ending? s.correlator.next stage with
    | none => exact hbegin.of_eq rfl
    | some r => exact hbegin.trans (ih r s₁)

/-- A caller in its turn ends no other caller's exchange. -/
theorem confined_tend (s : Switchboard α ρ) (c : Caller α ρ) :
    Confined c.goal.exchange?.toList s (s.tend c) := by
  cases hg : c.goal with
  | readiness tell =>
    have haccess := confined_of_eq (s.aside_access c.stage).correlator_eq
    rw [tend_readiness s hg]
    generalize s.access c.stage = p at haccess ⊢
    obtain ⟨s₁, access⟩ := p
    cases access <;> exact haccess.of_eq rfl
  | exchange ex spec n next =>
    have hstride := (s.confined_stride c ex spec).1
    rw [tend_exchange s hg]
    generalize s.stride c ex spec = p at hstride ⊢
    obtain ⟨s₁, stage⟩ := p
    cases s₁.ending? ex stage with
    | none => exact hstride.of_eq rfl
    | some r => exact hstride.trans ((confined_pursue _ s₁ c.id c.label).mono (by simp))

/-! ### Where a turn leads to -/

/-- The caller `k` has come by its turn to an exchange that has not ended, if it waits for the
end. An exchange that was registered in the turn has the deadline that it should, and it is this
caller's. -/
structure Arrives (k : Nat) (s s' : Switchboard α ρ) : Prop where
  dated : ∀ d ∈ s'.callers, d.id = k → ∀ ex spec, d.goal.errand? = some (ex, spec) →
    s.correlator.next ≤ ex → s'.correlator.deadline? ex = some (s.now + spec.timeout)
  expectant : ∀ d ∈ s'.callers, d.id = k → ∀ ex, d.goal.exchange? = some ex →
    d.stage = .waiting →
    s'.correlator.outcome? ex = none
  owned : ∀ e ∈ s'.correlator.entries, s.correlator.next ≤ e.id →
    ∃ d ∈ s'.callers, d.id = k ∧ d.goal.exchange? = some e.id

/-- A caller that is gone at the end of its turn leaves no exchange behind. -/
theorem arrives_of_gone {k : Nat} {s s' : Switchboard α ρ} (hs : s.correlator.Sound)
    (hcorrelator : s'.correlator = s.correlator)
    (hgone : ∀ d ∈ s'.callers, d.id = k → d.goal.errand? = none) : Arrives k s s' where
  dated d hd hid ex spec he := by
    rw [hgone d hd hid] at he
    cases he
  expectant d hd hid ex he := by
    obtain ⟨spec, he⟩ := Goal.exchange?_eq_some_iff.mp he
    rw [hgone d hd hid] at he
    cases he
  owned e he hle := by
    rw [hcorrelator] at he
    have := hs.lt_of_pending (List.mem_map_of_mem he)
    omega

/-- A caller that is kept in its place at the end of its turn has one exchange, if any. -/
theorem arrives_keep {s s₁ : Switchboard α ρ} {c : Caller α ρ}
    (hnd : (s₁.callers.map Caller.id).Nodup)
    (hdated : ∀ ex spec, c.goal.errand? = some (ex, spec) → s.correlator.next ≤ ex →
      s₁.correlator.deadline? ex = some (s.now + spec.timeout))
    (hexpectant : ∀ ex, c.goal.exchange? = some ex → c.stage = .waiting →
      s₁.correlator.outcome? ex = none)
    (howned : ∀ e ∈ s₁.correlator.entries, s.correlator.next ≤ e.id →
      c.goal.exchange? = some e.id) :
    Arrives c.id s (s₁.keep c) := by
  have hkept : ∀ d ∈ (s₁.keep c).callers, d.id = c.id → d = c :=
    fun d hd hid => ((mem_keep hnd).mp hd).resolve_right fun h => h.2 hid
  refine ⟨fun d hd hid => ?_, fun d hd hid => ?_, fun e he hle => ?_⟩
  · obtain rfl := hkept d hd hid
    exact hdated
  · obtain rfl := hkept d hd hid
    exact hexpectant
  · exact ⟨c, (mem_keep hnd).mpr (.inl rfl), rfl, howned e he hle⟩

/-- A caller without an exchange is kept, while the exchanges stay as they are. -/
theorem arrives_keep_of_goal {s s₁ : Switchboard α ρ} (hs : s.correlator.Sound) {c : Caller α ρ}
    (hnd : (s₁.callers.map Caller.id).Nodup) (hcorrelator : s₁.correlator = s.correlator)
    (hgoal : c.goal.errand? = none) : Arrives c.id s (s₁.keep c) :=
  arrives_of_gone hs hcorrelator fun d hd hid => by
    obtain rfl := ((mem_keep hnd).mp hd).resolve_right fun h => h.2 hid
    exact hgoal

/-- A caller reports and goes. -/
theorem arrives_finish {s s₁ : Switchboard α ρ} (hs : s.correlator.Sound)
    (hcorrelator : s₁.correlator = s.correlator) (k : Nat) (label : String) (r : ρ) :
    Arrives k s (s₁.finish k label r) :=
  arrives_of_gone hs hcorrelator fun _ hd hid => absurd hid (not_mem_finish hd)

/-- By its plan a caller comes to an exchange that has not ended. -/
theorem arrives_pursue {s : Switchboard α ρ} {k : Nat} (hi : s.Idle k) (label : String)
    {n : Nat} (plan : Plan α ρ n) : Arrives k s (s.pursue k label plan) := by
  induction plan generalizing s with
  | report r => exact arrives_finish hi.sound rfl k label r
  | exchange spec next ih =>
    obtain ⟨hturn, hfits⟩ := begin_spec hi label spec (.exchange s.correlator.next spec _ next)
    have hdeadlines := (s.confined_begin k spec).2
    rw [pursue_exchange]
    generalize s.begin k spec = p at hturn hfits hdeadlines ⊢
    obtain ⟨s₁, stage⟩ := p
    dsimp only at hturn hfits hdeadlines ⊢
    have hsound := hturn.sound hi.sound
    have hnext : s₁.correlator.next = s.correlator.next + 1 := by
      rw [Correlator.next, hdeadlines, List.length_append, List.length_singleton,
        Correlator.next]
    -- the only new exchange so far is the one that has been begun
    have hlatest : ∀ e ∈ s₁.correlator.entries, s.correlator.next ≤ e.id →
        s.correlator.next = e.id := by
      intro e he hle
      have := hsound.lt_of_pending (List.mem_map_of_mem he)
      omega
    cases hend : s₁.ending? s.correlator.next stage with
    | none =>
      refine arrives_keep
        (c := ⟨k, label, stage, false, .exchange s.correlator.next spec _ next⟩)
        (hturn.callers hi.ids_nodup).1 (fun ex spec' he _ => ?_) (fun ex he hstage => ?_)
        fun e he hle => congrArg some (hlatest e he hle)
      · obtain ⟨rfl, rfl⟩ := Prod.mk.inj (Option.some.inj he)
        rw [Correlator.deadline?, hdeadlines, Correlator.next, List.getElem?_concat_length]
      · exact Option.some.inj he ▸ ending?_eq_none_iff.mp hend hstage
    | some r =>
      obtain ⟨rfl, o, ho, rfl⟩ := ending?_eq_some_iff.mp hend
      have hi₁ := hi.of_spares hturn (hfits.settled rfl).disarmed
      have hrest := spares_pursue hi₁ label (next o.resolution)
      have harrives := ih o.resolution hi₁
      refine ⟨fun d hd hid ex spec' he _ => ?_, harrives.expectant, fun e he hle => ?_⟩
      · rw [← hturn.now_eq]
        exact harrives.dated d hd hid ex spec' he (fits_pursue hi₁ hd hid he).2
      · by_cases hnew : s₁.correlator.next ≤ e.id
        · exact harrives.owned e he hnew
        · have hid : e.id = s.correlator.next := by omega
          have hnone := (hrest.sound hsound).outcome?_of_pending (List.mem_map_of_mem he)
          rw [hid, hrest.outcome?_mono ho] at hnone
          cases hnone

/-- So it does by its turn. -/
theorem arrives_tend {s : Switchboard α ρ} {c : Caller α ρ} (h : s.OrderlyBut (some c.id))
    (hp : ∀ ex spec, c.goal.errand? = some (ex, spec) → s.Poised c ex spec) :
    Arrives c.id s (s.tend c) := by
  cases hg : c.goal with
  | readiness tell =>
    have haccess := s.aside_access c.stage
    have hnd := ((haccess.spares_nil c.id).callers h.ids_nodup).1
    rw [tend_readiness s hg]
    generalize s.access c.stage = p at haccess hnd ⊢
    obtain ⟨s₁, access⟩ := p
    cases access with
    | blocked stage =>
      exact arrives_keep_of_goal (c := { c with stage := stage }) h.sound hnd
        haccess.correlator_eq (by rw [hg, Goal.errand?])
    | granted readiness => exact arrives_finish h.sound haccess.correlator_eq _ _ _
    | refused e => exact arrives_finish h.sound haccess.correlator_eq _ _ _
  | exchange ex spec n next =>
    have hp := hp ex spec (by rw [hg, Goal.errand?])
    obtain ⟨hturn, hfits, -⟩ := stride_spec h.sound hp
    have hdeadlines := (s.confined_stride c ex spec).2
    rw [tend_exchange s hg]
    generalize s.stride c ex spec = p at hturn hfits hdeadlines ⊢
    obtain ⟨s₁, stage⟩ := p
    dsimp only at hturn hfits hdeadlines ⊢
    have hnext : s₁.correlator.next = s.correlator.next := congrArg List.length hdeadlines
    cases hend : s₁.ending? ex stage with
    | none =>
      refine arrives_keep (c := { c with stage := stage }) (hturn.callers h.ids_nodup).1
        (fun ex' spec' he hle => ?_) (fun ex' he hstage => ?_) fun e he hle => ?_
      · rw [hg] at he
        obtain ⟨rfl, rfl⟩ := Prod.mk.inj (Option.some.inj he)
        have := hp.known.registered
        omega
      · rw [hg] at he
        exact Option.some.inj he ▸ ending?_eq_none_iff.mp hend hstage
      · have := (hturn.sound h.sound).lt_of_pending (List.mem_map_of_mem he)
        omega
    | some r =>
      obtain ⟨rfl, o, ho, rfl⟩ := ending?_eq_some_iff.mp hend
      have hi := h.idle_of_turn hturn (hfits.settled rfl).disarmed
      obtain ⟨hdated, hexpectant, howned⟩ := arrives_pursue hi c.label (next o.resolution)
      rw [hnext, hturn.now_eq] at hdated
      rw [hnext] at howned
      exact ⟨hdated, hexpectant, howned⟩

/-- And by a demand for an open link. -/
theorem arrives_ensureOpen {s : Switchboard α ρ} (h : s.Orderly) (label : String)
    (tell : Except OperationError Readiness → ρ) :
    Arrives s.next s.enlist (s.ensureOpen label tell) := by
  have hseek := s.enlist.aside_seekOpen s.next
  have hnd := ((hseek.spares_nil s.next).callers h.ids_nodup).1
  rw [ensureOpen_eq]
  generalize s.enlist.seekOpen s.next = p at hseek hnd ⊢
  obtain ⟨s₁, access⟩ := p
  cases access with
  | blocked stage =>
    exact arrives_keep_of_goal (s := s.enlist)
      (c := ⟨s.next, label, stage, false, .readiness tell⟩)
      h.sound hnd hseek.correlator_eq rfl
  | granted readiness => exact arrives_finish (s := s.enlist) h.sound hseek.correlator_eq _ _ _
  | refused e => exact arrives_finish (s := s.enlist) h.sound hseek.correlator_eq _ _ _

/-- Such a demand ends no exchange. -/
theorem confined_ensureOpen (s : Switchboard α ρ) (label : String)
    (tell : Except OperationError Readiness → ρ) :
    Confined [] s.enlist (s.ensureOpen label tell) := by
  have hseek := confined_of_eq (s.enlist.aside_seekOpen s.next).correlator_eq
  rw [ensureOpen_eq]
  generalize s.enlist.seekOpen s.next = p at hseek ⊢
  obtain ⟨s₁, access⟩ := p
  cases access <;> exact hseek.of_eq rfl

/-- Nor does a demand for messages. -/
theorem confined_listen (s : Switchboard α ρ) (label : String) (m : Matcher α) (timeout : Nat)
    (tell : Resolution α → ρ) : Confined [] s.enlist (s.listen label m timeout tell) where
  next_le := by
    change s.correlator.next ≤ (s.enlist.enrol (listening m timeout)).correlator.next
    rw [next_enrol]
    exact Nat.le_succ _
  outcome_eq _ _ _ := rfl

/-- A demand for messages comes to its own exchange. -/
theorem arrives_listen {s : Switchboard α ρ} (h : s.Orderly) (label : String) (m : Matcher α)
    (timeout : Nat) (tell : Resolution α → ρ) :
    Arrives s.next s.enlist (s.listen label m timeout tell) := by
  have hnd := ((s.enlist.spares_register s.next m timeout).callers h.ids_nodup).1
  refine arrives_keep (c := ⟨s.next, label, .waiting, false,
    .exchange s.correlator.next (listening m timeout) 0 fun r => .report (tell r)⟩) hnd
    (fun ex spec he _ => ?_) (fun ex he _ => ?_) fun e he hle => congrArg some ?_
  · obtain ⟨rfl, rfl⟩ := Prod.mk.inj (Option.some.inj he)
    exact deadline?_enrol s.enlist (listening m timeout)
  · exact Option.some.inj he ▸ outcome?_next h.sound
  · have hlt : e.id < (s.correlator.register s.now m timeout).next :=
      (h.sound.register s.now m timeout).lt_of_pending (List.mem_map_of_mem he)
    rw [next_register] at hlt
    exact Nat.le_antisymm hle (Nat.le_of_lt_succ hlt)

/-! ### Nobody is forgotten -/

/-- Every open exchange has its caller, and a caller that waits for an exchange that has ended
has its turn ahead of it. -/
structure Minded (s : Switchboard α ρ) : Prop where
  owned : ∀ e ∈ s.correlator.entries, ∃ c ∈ s.callers, c.goal.exchange? = some e.id
  called : ∀ c ∈ s.callers, ∀ ex o, c.goal.exchange? = some ex →
    s.correlator.outcome? ex = some o → s.Called c

/-- At the start there is no exchange to be minded. -/
theorem minded_start (cap : Nat) (manual : Bool) :
    (start cap manual : Switchboard α ρ).Minded where
  owned _ he := absurd he List.not_mem_nil
  called _ hc := absurd hc List.not_mem_nil

/-- Where no caller has a turn, everybody still minds its exchange. -/
theorem Minded.passes {expired : List Nat} {s s' : Switchboard α ρ} (h : s.Minded)
    (hp : Passes expired s s') : s'.Minded := by
  obtain ⟨ended, hends, hall⟩ := hp.ends
  refine ⟨fun e he => ?_, fun c hc ex o hex ho hstage => ?_⟩
  · obtain ⟨d, hd, hid⟩ := List.mem_map.mp (hends.mem_pending (List.mem_map_of_mem he))
    rw [hp.callers_eq, ← hid]
    exact h.owned d hd
  · rw [hp.callers_eq] at hc
    rcases hends.outcome?_cases ho with hold | ⟨-, hmem, rfl⟩
    · exact hp.ready c hc (h.called c hc ex o hex hold hstage)
    · exact (hall o hmem).2.2 c hc hex hstage

/-- So it is when the clock goes on. -/
theorem Minded.ticked {s s' : Switchboard α ρ} {instant : Nat} (h : s.Minded)
    (ht : s.Ticked instant s') : s'.Minded := by
  refine ⟨fun e he => ?_, fun d hd ex o hex ho hstage => ?_⟩
  · rw [ht.correlator_eq] at he
    obtain ⟨c, hc, hex⟩ := h.owned e he
    obtain ⟨d, hd, hcd⟩ := ht.evolves.forth c hc e.id hex List.not_mem_nil
    exact ⟨d, hd, hcd.goal_eq ▸ hex⟩
  · obtain ⟨c, hc, hcd, -⟩ := ht.mem_callers hd
    rw [ht.correlator_eq] at ho
    rw [← hcd.id_eq]
    exact ht.mem_ready (h.called c hc ex o (hcd.goal_eq ▸ hex) ho (hcd.underway hstage))

/-- What is ready first is the turn of a caller; nothing else is forgotten by that. -/
theorem Minded.called_pop {s : Switchboard α ρ} (h : s.Minded) {k : Nat} {rest : List Task}
    (hr : s.ready = .caller k :: rest) {c : Caller α ρ} (hc : c ∈ s.callers) (hne : c.id ≠ k)
    {ex : Nat} {o : Outcome α} (hex : c.goal.exchange? = some ex)
    (ho : s.correlator.outcome? ex = some o) :
    ({ s with ready := rest } : Switchboard α ρ).Called c := fun hstage =>
  (List.mem_cons.mp (hr ▸ h.called c hc ex o hex ho hstage)).resolve_left fun heq =>
    hne (Task.caller.inj heq)

section Turn

variable {s s' : Switchboard α ρ} {k : Nat} {sent own : List Nat}

/-- The turn of one caller leaves everybody minded: it ends only exchanges of its own, and it
does not leave one that is open. -/
theorem minded_of_turn (h : s.OrderlyBut (some k)) (hturn : Spares k sent s s')
    (hconfined : Confined own s s') (harrives : Arrives k s s')
    (hown : ∀ c ∈ s.callers, ∀ ex ∈ own, c.goal.exchange? = some ex → c.id = k)
    (howned : ∀ e ∈ s.correlator.entries, ∃ c ∈ s.callers, c.goal.exchange? = some e.id)
    (hstays : ∀ c ∈ s.callers, c.id = k → ∀ ex, c.goal.exchange? = some ex →
      ex ∈ s'.correlator.pendingIds → ∃ d ∈ s'.callers, d.goal.exchange? = some ex)
    (hcalled : ∀ c ∈ s.callers, c.id ≠ k → ∀ ex o, c.goal.exchange? = some ex →
      s.correlator.outcome? ex = some o → s.Called c) : s'.Minded := by
  have hcallers := (hturn.callers h.ids_nodup).2
  refine ⟨fun e he => ?_, fun c hc ex o hex ho hstage => ?_⟩
  · by_cases hlt : e.id < s.correlator.next
    · obtain ⟨c, hc, hex⟩ := howned e (hturn.entries e he hlt)
      by_cases hk : c.id = k
      · exact hstays c hc hk e.id hex (List.mem_map_of_mem he)
      · exact ⟨c, (hcallers c hk).mpr hc, hex⟩
    · obtain ⟨d, hd, -, hex⟩ := harrives.owned e he (Nat.not_lt.mp hlt)
      exact ⟨d, hd, hex⟩
  · by_cases hk : c.id = k
    · rw [harrives.expectant c hc hk ex hex hstage] at ho
      cases ho
    · have hold := (hcallers c hk).mp hc
      obtain ⟨spec, he⟩ := Goal.exchange?_eq_some_iff.mp hex
      have hlt := (h.fits c hold (by simpa using hk) ex spec he).known.registered
      rw [hconfined.outcome_eq ex hlt fun hmem => hk (hown c hold ex hmem hex)] at ho
      exact hturn.mem_ready (hcalled c hold hk ex o hex ho hstage)

/-- The first turn of a newcomer. -/
theorem minded_of_newcomer (ho : s.Orderly) (h : s.Minded)
    (hturn : Spares s.next [] s.enlist s') (hconfined : Confined [] s.enlist s')
    (harrives : Arrives s.next s.enlist s') : s'.Minded := by
  have hnew : ∀ c ∈ s.enlist.callers, c.id ≠ s.next := fun c hc => Nat.ne_of_lt (ho.ids_lt c hc)
  exact minded_of_turn (orderlyBut_enlist ho _) hturn hconfined harrives
    (fun _ _ _ hmem => absurd hmem List.not_mem_nil) h.owned
    (fun c hc hk => absurd hk (hnew c hc)) fun c hc _ => h.called c hc

end Turn

/-- A caller that has its turn leaves everybody minded. -/
theorem minded_tend {s : Switchboard α ρ} (ho : s.Orderly) (h : s.Minded) {c : Caller α ρ}
    {rest : List Task} (hr : s.ready = .caller c.id :: rest) (hc : c ∈ s.callers) :
    (({ s with ready := rest } : Switchboard α ρ).tend c).Minded := by
  have hpop := orderlyBut_pop ho hr
  have hp : ∀ ex spec, c.goal.errand? = some (ex, spec) →
      ({ s with ready := rest } : Switchboard α ρ).Poised c ex spec :=
    fun ex spec he => poised_of_ready ho hr hc he
  have hturn := spares_tend hpop hp
  refine minded_of_turn hpop hturn (confined_tend _ c) (arrives_tend hpop hp)
    (fun d hd ex hex he => ?_) h.owned (fun d hd hid ex he hopen => ?_)
      fun d hd hne ex o he ho => h.called_pop hr hd hne he ho
  · exact ho.apart d hd c hc ex he (Option.mem_toList.mp hex)
  · obtain rfl := eq_of_id_eq ho.ids_nodup hd hc hid
    obtain ⟨spec, he'⟩ := Goal.exchange?_eq_some_iff.mp he
    cases hg : d.goal with
    | readiness tell =>
      rw [hg] at he
      cases he
    | exchange ex' spec' n next =>
      obtain ⟨rfl, rfl⟩ : ex' = ex ∧ spec' = spec := by simpa [hg, Goal.errand?] using he'
      rcases tend_caller hpop (hp _ _ he') hg with
        ⟨b, hb, hdb, -⟩ | ⟨s₁, o, hi, -, -, ho₁, heq⟩
      · exact ⟨b, hb, hdb.goal_eq ▸ he⟩
      · -- the exchange has ended, so it is not open
        have hend := (spares_pursue hi d.label (next o.resolution)).outcome?_mono ho₁
        rw [← heq] at hend
        rw [(hturn.sound ho.sound).outcome?_of_pending hopen] at hend
        cases hend

/-- And in any other event. -/
theorem Minded.occurs {s s' : Switchboard α ρ} {e : Event α ρ} (ho : s.Orderly) (h : s.Minded)
    (hs : Occurs s e s') : s'.Minded := by
  cases hs with
  | pass hp _ => exact h.passes hp
  | resume hr =>
    refine ⟨h.owned, fun c hc ex o hex hout hstage => ?_⟩
    have := h.called c hc ex o hex hout hstage
    rw [hr] at this
    exact absurd this List.not_mem_nil
  | turn hr hc => exact minded_tend ho h hr hc
  | launch label plan =>
    exact minded_of_newcomer ho h (spares_pursue (idle_enlist ho) label plan)
      (confined_pursue plan _ _ _) (arrives_pursue (idle_enlist ho) label plan)
  | ensureOpen label tell =>
    exact minded_of_newcomer ho h (s.spares_ensureOpen label tell)
      (s.confined_ensureOpen label tell) (arrives_ensureOpen ho label tell)
  | listen label m timeout tell =>
    exact minded_of_newcomer ho h (s.spares_listen label m timeout tell)
      (s.confined_listen label m timeout tell) (arrives_listen ho label m timeout tell)
  | @leave _ c hc hnone =>
    have hcorrelator : ((s.stopAt c.stage).dismiss c.id).correlator = s.correlator :=
      (s.aside_stopAt c.stage).correlator_eq
    have hgone : ∀ d ∈ ((s.stopAt c.stage).dismiss c.id).callers, d.id ≠ c.id := fun d hd => by
      simpa using (List.mem_filter.mp hd).2
    refine minded_of_turn (orderlyBut_of_orderly ho _) (s.spares_stop c)
      (confined_of_eq hcorrelator) (arrives_of_gone ho.sound hcorrelator fun d hd hid =>
        absurd hid (hgone d hd)) (fun _ _ _ hmem => absurd hmem List.not_mem_nil) h.owned
      (fun d hd hid ex he => ?_) fun d hd _ => h.called d hd
    rw [eq_of_id_eq ho.ids_nodup hd hc hid, hnone] at he
    cases he

/-- Every event keeps everybody minded. -/
theorem Minded.occur {s : Switchboard α ρ} (ho : s.Orderly) (h : s.Minded) (e : Event α ρ) :
    (s.occur e).Minded := by
  cases e with
  | tick instant => exact h.ticked (s.ticked_tick instant)
  | _ => exact h.occurs ho (occurs_occur ho fun _ heq => by cases heq)

/-- So it is after any events. -/
theorem Minded.after {s : Switchboard α ρ} (ho : s.Orderly) (h : s.Minded)
    (events : List (Event α ρ)) : (s.after events).Minded := by
  induction events generalizing s with
  | nil => exact h
  | cons e rest ih => exact ih (ho.after [e]) (h.occur ho e)

/-! ### Turns among the events -/

/-- Between `s` and `s'` the caller `k` has a turn, or is new and takes its first one. The turn
begins at a state that differs from `s` only in what is ready and in the id of the next caller.
-/
def HasTurn (k : Nat) (s s' : Switchboard α ρ) : Prop :=
  ∃ s₀ : Switchboard α ρ, s₀.callers = s.callers ∧ s₀.correlator = s.correlator ∧
    s₀.now = s.now ∧
    s₀.ready ⊆ s.ready ∧ (∃ sent, Spares k sent s₀ s') ∧ Arrives k s₀ s'

/-- Unless it is the turn of a caller, an event leaves the callers alone or lets those go on who
have yielded. -/
theorem Occurs.cases_turn {s s' : Switchboard α ρ} {e : Event α ρ} (ho : s.Orderly)
    (hs : Occurs s e s') :
    (∃ expired, Passes expired s s' ∧ ∀ id ∈ expired, .expire id ∈ s.ready) ∨
      s.ready = [] ∧ s' = s.resume ∨
        ∃ k, HasTurn k s s' := by
  cases hs with
  | pass hp hexpired => exact .inl ⟨_, hp, hexpired⟩
  | resume hr => exact .inr (.inl ⟨hr, rfl⟩)
  | @turn c rest hr hc =>
    have hp : ∀ ex spec, c.goal.errand? = some (ex, spec) →
        ({ s with ready := rest } : Switchboard α ρ).Poised c ex spec :=
      fun ex spec he => poised_of_ready ho hr hc he
    exact .inr (.inr ⟨c.id, { s with ready := rest }, rfl, rfl, rfl,
      hr ▸ List.subset_cons_self _ rest, ⟨_, spares_tend (orderlyBut_pop ho hr) hp⟩,
      arrives_tend (orderlyBut_pop ho hr) hp⟩)
  | launch label plan =>
    exact .inr (.inr ⟨s.next, s.enlist, rfl, rfl, rfl, List.Subset.refl _,
      ⟨_, spares_pursue (idle_enlist ho) label plan⟩,
      arrives_pursue (idle_enlist ho) label plan⟩)
  | ensureOpen label tell =>
    exact .inr (.inr ⟨s.next, s.enlist, rfl, rfl, rfl, List.Subset.refl _,
      ⟨_, s.spares_ensureOpen label tell⟩, arrives_ensureOpen ho label tell⟩)
  | listen label m timeout tell =>
    exact .inr (.inr ⟨s.next, s.enlist, rfl, rfl, rfl, List.Subset.refl _,
      ⟨_, s.spares_listen label m timeout tell⟩, arrives_listen ho label m timeout tell⟩)
  | @leave _ c hc hnone =>
    have hgone : ∀ d ∈ ((s.stopAt c.stage).dismiss c.id).callers, d.id ≠ c.id := fun d hd => by
      simpa using (List.mem_filter.mp hd).2
    exact .inr (.inr ⟨c.id, s, rfl, rfl, rfl, List.Subset.refl _, ⟨_, s.spares_stop c⟩,
      arrives_of_gone ho.sound (s.aside_stopAt c.stage).correlator_eq fun d hd hid =>
        absurd hid (hgone d hd)⟩)

/-- Only the clock going on lets time pass. -/
theorem Occurs.now_eq {s s' : Switchboard α ρ} {e : Event α ρ} (ho : s.Orderly)
    (hs : Occurs s e s') :
    s'.now = s.now := by
  rcases hs.cases_turn ho with ⟨_, hp, -⟩ | ⟨-, rfl⟩ | ⟨k, s₀, -, -, hnow, -, ⟨_, hspares⟩, -⟩
  · exact hp.now_eq
  · rfl
  · exact hspares.now_eq.trans hnow

/-- Exchanges come to be about to expire because their watches have yielded, and nothing else is
ready. -/
theorem Occurs.expiring {s s' : Switchboard α ρ} {e : Event α ρ} (ho : s.Orderly)
    (hs : Occurs s e s') {id : Nat} (hid : .expire id ∈ s'.ready) :
    .expire id ∈ s.ready ∨ s.ready = [] ∧ id ∈ s.yielded := by
  rcases hs.cases_turn ho with ⟨_, hp, -⟩ | ⟨hr, rfl⟩ |
    ⟨k, s₀, -, -, -, hready, ⟨_, hspares⟩, -⟩
  · exact .inl (hp.unexpired id hid)
  · obtain ⟨j, hj, heq⟩ := List.mem_map.mp hid
    exact .inr ⟨hr, Task.expire.inj heq ▸ List.mem_reverse.mp hj⟩
  · refine .inl (hready ?_)
    by_contra hno
    exact hspares.unexpired hno hid

/-- An exchange that runs into its deadline in an event was open and about to expire. -/
theorem Occurs.timed_out {s s' : Switchboard α ρ} {e : Event α ρ} (ho : s.Orderly)
    (hs : Occurs s e s') {ex : Nat}
    {o : Outcome α} (hnone : s.correlator.outcome? ex = none)
    (hout : s'.correlator.outcome? ex = some o) {seen : List Json}
    (hseen : o.resolution = .failed ⟨.timeout, seen⟩) :
    ex ∈ s.correlator.pendingIds ∧ .expire ex ∈ s.ready ∧ o.time = s.now := by
  rcases hs.cases_turn ho with
    ⟨_, hp, hexpired⟩ | ⟨-, rfl⟩ | ⟨k, s₀, -, hcorrelator, -, -, ⟨_, hspares⟩, -⟩
  · obtain ⟨ended, hends, hall⟩ := hp.ends
    rcases hends.outcome?_cases hout with hold | ⟨-, hmem, rfl⟩
    · rw [hnone] at hold
      cases hold
    · obtain ⟨htime, htimed, -⟩ := hall o hmem
      exact ⟨hends.mem_pending_of_mem hmem, hexpired _ (htimed seen hseen), htime⟩
  · change s.correlator.outcome? ex = some o at hout
    rw [hnone] at hout
    cases hout
  · rcases hspares.outcome?_cases hout with hold | ⟨seen', hlost⟩
    · rw [hcorrelator, hnone] at hold
      cases hold
    · rw [hlost] at hseen
      cases hseen

/-! ### Who is there -/

/-- How many callers come in an event. -/
def Event.newcomers : Event α ρ → Nat
  | .act (.launch _ _ _) => 1
  | .act (.ensureOpen _ _) => 1
  | .act (.listen _ _ _ _) => 1
  | _ => 0

/-- Numbers are given out to newcomers only. -/
theorem Occurs.next_eq {s s' : Switchboard α ρ} {e : Event α ρ} (ho : s.Orderly)
    (hs : Occurs s e s') (hnone : e.newcomers = 0) : s'.next = s.next := by
  cases hs with
  | pass hp _ => exact hp.next_eq
  | resume hr => rfl
  | turn hr hc =>
    exact (spares_tend (orderlyBut_pop ho hr)
      fun ex spec he => poised_of_ready ho hr hc he).next_eq
  | leave hc _ => exact (s.spares_stop _).next_eq
  | _ => cases hnone

/-- The ids of callers are given in the order in which they come. -/
theorem next_occur {s : Switchboard α ρ} (ho : s.Orderly) (e : Event α ρ) :
    (s.occur e).next = s.next + e.newcomers := by
  cases e with
  | tick instant =>
    rw [(s.ticked_tick instant).same]
    rfl
  | act step =>
    cases step with
    | launch label n plan => exact (spares_pursue (idle_enlist ho) label plan).next_eq
    | ensureOpen label tell => exact (s.spares_ensureOpen label tell).next_eq
    | listen label m timeout tell => exact (s.spares_listen label m timeout tell).next_eq
    | _ => exact (occurs_occur ho fun _ heq => by cases heq).next_eq ho rfl
  | _ => exact (occurs_occur ho fun _ heq => by cases heq).next_eq ho rfl

/-- Whoever is there and is not new was there before. -/
theorem Occurs.back {s s' : Switchboard α ρ} {e : Event α ρ} (ho : s.Orderly)
    (hs : Occurs s e s') {d : Caller α ρ} (hd : d ∈ s'.callers) (hlt : d.id < s.next) :
    ∃ c ∈ s.callers, c.id = d.id := by
  have hnewcomer : ∀ {s'' : Switchboard α ρ}, Spares s.next [] s.enlist s'' → d ∈ s''.callers →
      ∃ c ∈ s.callers, c.id = d.id := fun hturn hd =>
    ⟨d, ((hturn.callers ho.ids_nodup).2 d (Nat.ne_of_lt hlt)).mp hd, rfl⟩
  cases hs with
  | pass hp _ => exact ⟨d, hp.callers_eq ▸ hd, rfl⟩
  | resume hr => exact ⟨d, hd, rfl⟩
  | @turn c rest hr hc =>
    have hturn :=
      spares_tend (orderlyBut_pop ho hr) fun ex spec he => poised_of_ready ho hr hc he
    by_cases hid : d.id = c.id
    · exact ⟨c, hc, hid.symm⟩
    · exact ⟨d, ((hturn.callers ho.ids_nodup).2 d hid).mp hd, rfl⟩
  | launch label plan => exact hnewcomer (spares_pursue (idle_enlist ho) label plan) hd
  | ensureOpen label tell => exact hnewcomer (s.spares_ensureOpen label tell) hd
  | listen label m timeout tell => exact hnewcomer (s.spares_listen label m timeout tell) hd
  | leave hc _ =>
    exact ⟨d, (s.aside_stopAt _).callers_eq ▸ (List.mem_filter.mp hd).1, rfl⟩

/-- A caller that is no newcomer was there before. -/
theorem back_of_occur {s : Switchboard α ρ} (ho : s.Orderly) (e : Event α ρ) {d : Caller α ρ}
    (hd : d ∈ (s.occur e).callers) (hlt : d.id < s.next) : ∃ c ∈ s.callers, c.id = d.id := by
  cases e with
  | tick instant =>
    obtain ⟨c, hc, hcd, -⟩ := (s.ticked_tick instant).mem_callers hd
    exact ⟨c, hc, hcd.id_eq⟩
  | _ => exact (occurs_occur ho fun _ heq => by cases heq).back ho hd hlt

/-- Callers are numbered upwards. -/
theorem next_le_after {s : Switchboard α ρ} (ho : s.Orderly) (events : List (Event α ρ)) :
    s.next ≤ (s.after events).next := by
  induction events generalizing s with
  | nil => exact Nat.le_refl _
  | cons e rest ih =>
    have hfirst := next_occur ho e
    exact Nat.le_trans (by omega) (ih (ho.after [e]))

/-- Whoever is gone does not come back. -/
theorem gone_after {s : Switchboard α ρ} (ho : s.Orderly) {k : Nat} (hlt : k < s.next)
    (hgone : ∀ c ∈ s.callers, c.id ≠ k) (events : List (Event α ρ)) :
    ∀ c ∈ (s.after events).callers, c.id ≠ k := by
  induction events generalizing s with
  | nil => exact hgone
  | cons e rest ih =>
    refine ih (ho.after [e]) ?_ fun d hd hid => ?_
    · exact Nat.lt_of_lt_of_le hlt (next_le_after ho [e])
    · obtain ⟨c, hc, heq⟩ := back_of_occur ho e hd (hid ▸ hlt)
      exact hgone c hc (heq.trans hid)

/-! ### Registrations -/

/-- In an event an exchange is registered, for the time that it may take. -/
structure Registers (s : Switchboard α ρ) (e : Event α ρ) (ex timeout : Nat) : Prop where
  new : s.correlator.next ≤ ex
  registered : ex < (s.occur e).correlator.next
  deadline : (s.occur e).correlator.deadline? ex = some (s.now + timeout)

/-- A caller that has come to a new exchange has had it registered, at this instant. -/
theorem Occurs.deadline {s s' : Switchboard α ρ} {e : Event α ρ} (ho : s.Orderly)
    (hs : Occurs s e s')
    {d : Caller α ρ} (hd : d ∈ s'.callers) {ex : Nat} {spec : Spec α}
    (he : d.goal.errand? = some (ex, spec)) (hle : s.correlator.next ≤ ex) :
    s'.correlator.deadline? ex = some (s.now + spec.timeout) := by
  have hold : d ∉ s.callers := fun hmem => by
    have := (ho.fits hmem he).known.registered
    omega
  rcases hs.cases_turn ho with
    ⟨_, hp, -⟩ | ⟨-, rfl⟩ | ⟨k, s₀, hcallers, hcorrelator, hnow, -, ⟨_, hspares⟩, harrives⟩
  · exact absurd (hp.callers_eq ▸ hd) hold
  · exact absurd hd hold
  · have hk : d.id = k := by
      by_contra hne
      exact hold (hcallers ▸ ((hspares.callers (hcallers ▸ ho.ids_nodup)).2 d hne).mp hd)
    rw [← hnow]
    exact harrives.dated d hd hk ex spec he (hcorrelator ▸ hle)

/-- A caller that has come to a new exchange in an event has had it registered in that event. -/
theorem registers_of_occur {s : Switchboard α ρ} (ho : s.Orderly) (e : Event α ρ)
    {d : Caller α ρ} (hd : d ∈ (s.occur e).callers) {ex : Nat} {spec : Spec α}
    (he : d.goal.errand? = some (ex, spec)) (hle : s.correlator.next ≤ ex) :
    s.Registers e ex spec.timeout := by
  refine ⟨hle, ((ho.after [e]).fits hd he).known.registered, ?_⟩
  cases e with
  | tick instant =>
    obtain ⟨c, hc, hcd, -⟩ := (s.ticked_tick instant).mem_callers hd
    have := (ho.fits hc (hcd.goal_eq ▸ he)).known.registered
    omega
  | _ => exact (occurs_occur ho fun _ heq => by cases heq).deadline ho hd he hle

/-- The exchange that a caller has come to was registered in one of the events so far. -/
theorem exists_registers {s : Switchboard α ρ} (ho : s.Orderly) {events : List (Event α ρ)}
    {d : Caller α ρ} (hd : d ∈ (s.after events).callers) {ex : Nat} {spec : Spec α}
    (he : d.goal.errand? = some (ex, spec)) (hle : s.correlator.next ≤ ex) :
    ∃ before e later, events = before ++ e :: later ∧
      (s.after before).Registers e ex spec.timeout := by
  induction events using List.reverseRecOn generalizing d with
  | nil =>
    have := (ho.fits hd he).known.registered
    omega
  | append_singleton before e ih =>
    rw [after_append] at hd
    by_cases hlt : ex < (s.after before).correlator.next
    · obtain ⟨c, hc, hcd⟩ := ((s.after before).keeps_occur e (ho.after before)).2.back d hd ex
        (exchange?_of_errand? he) hlt
      obtain ⟨xs, e', ys, rfl, hreg⟩ := ih hc (hcd.goal_eq ▸ he)
      exact ⟨xs, e', ys ++ [e], by simp, hreg⟩
    · exact ⟨before, e, [], rfl,
        registers_of_occur (ho.after before) e hd he (Nat.not_lt.mp hlt)⟩

end VenueLink.Switchboard

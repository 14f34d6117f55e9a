import VenueLink.Proofs.Switchboard.Course

/-!
# The clock

When the clock goes on, the timers that are due run out, and each rouses its caller. `Rung` says
what several alarms have changed once they have all gone off, and `Ticked` what the clock has.

## Main results

* `ticked_tick`: what has changed when the clock has gone on.
* `Ticked.fits`: a caller stands to its exchange as it should then.
* `keeps_tick`: the clock going on keeps the switchboard in order.
-/

namespace VenueLink.Switchboard

open Exchange Correlator

variable {α ρ : Type}

/-- A pause is over once. -/
@[simp] theorem ripened_ripened (stage : Stage) : ripened (ripened stage) = ripened stage := by
  cases stage <;> rfl

/-- No pause is over with the end of an exchange, or becomes that. -/
theorem ripened_eq_waiting_iff {stage : Stage} :
    ripened stage = .waiting ↔ stage = .waiting := by
  cases stage <;> simp [ripened]

/-- What the alarms of `alarms` change when they go off: callers are roused, and tasks made
ready. -/
structure Rung (alarms : List Alarm) (s s' : Switchboard α ρ) : Prop where
  same : s' = { s with callers := s'.callers, ready := s'.ready }
  callers : ∃ f : Caller α ρ → Caller α ρ, s'.callers = s.callers.map f ∧
    ∀ c, c.Continues (f c) ∧
      ((f c).stage = c.stage ∨ .ripen c.id ∈ alarms ∧ (f c).stage = ripened c.stage) ∧
      ((f c).late ↔ c.late ∨ .giveUp c.id ∈ alarms)
  ready : ∃ more, s'.ready = s.ready ++ more ∧ ∀ id, .expire id ∉ more
  woken : ∀ k, .giveUp k ∈ alarms → .caller k ∈ s'.ready
  watches : ∀ id, .watch id ∈ alarms → .watch id ∈ s'.ready

/-- No alarm has rung. -/
theorem Rung.refl (s : Switchboard α ρ) : Rung [] s s where
  same := rfl
  callers := ⟨id, (List.map_id _).symm, fun c => ⟨.refl c, .inl rfl, by simp⟩⟩
  ready := ⟨[], by simp⟩
  woken k hk := absurd hk List.not_mem_nil
  watches id hid := absurd hid List.not_mem_nil

/-- Some alarms have rung, and then others. -/
theorem Rung.trans {xs ys : List Alarm} {s₁ s₂ s₃ : Switchboard α ρ} (h₁ : Rung xs s₁ s₂)
    (h₂ : Rung ys s₂ s₃) : Rung (xs ++ ys) s₁ s₃ where
  same := by
    rw [h₂.same, h₁.same]
  callers := by
    obtain ⟨f, hf, hfc⟩ := h₁.callers
    obtain ⟨g, hg, hgc⟩ := h₂.callers
    refine ⟨g ∘ f, by rw [hg, hf, List.map_map], fun c => ?_⟩
    obtain ⟨hcont, hstage, hlate⟩ := hfc c
    obtain ⟨hcont', hstage', hlate'⟩ := hgc (f c)
    refine ⟨hcont.trans hcont', ?_, ?_⟩
    · rw [Function.comp_apply, List.mem_append]
      rw [← hcont.id_eq] at hstage'
      rcases hstage' with heq' | ⟨hmem', heq'⟩
      · exact heq' ▸ hstage.imp_right (.imp_left .inl)
      · refine .inr ⟨.inr hmem', ?_⟩
        rcases hstage with heq | ⟨-, heq⟩
        · rw [heq', heq]
        · rw [heq', heq, ripened_ripened]
    · rw [Function.comp_apply, hlate', hlate, List.mem_append, hcont.id_eq, or_assoc]
  ready := exists_append_trans h₁.ready h₂.ready fun hno₁ hno₂ id =>
    List.not_mem_append (hno₁ id) (hno₂ id)
  woken k hk := by
    rcases List.mem_append.mp hk with h | h
    · obtain ⟨more, heq, -⟩ := h₂.ready
      exact heq ▸ List.mem_append_left _ (h₁.woken k h)
    · exact h₂.woken k h
  watches id hid := by
    rcases List.mem_append.mp hid with h | h
    · obtain ⟨more, heq, -⟩ := h₂.ready
      exact heq ▸ List.mem_append_left _ (h₁.watches id h)
    · exact h₂.watches id h

/-- A task is ready once it has been put there. -/
theorem mem_enqueue (s : Switchboard α ρ) (t : Task) : t ∈ (s.enqueue t).ready := by
  rw [enqueue]
  dsimp only
  split
  · assumption
  · exact List.mem_append_right _ (List.mem_singleton.mpr rfl)


/-- Rousing a caller changes what is known of it, and wakes it. -/
theorem rung_rouse (s : Switchboard α ρ) (k : Nat) {f : Caller α ρ → Caller α ρ} {a : Alarm}
    (hf : ∀ c : Caller α ρ, c.Continues (f c) ∧
      ((f c).stage = c.stage ∨ a = .ripen k ∧ (f c).stage = ripened c.stage))
    (hlate : ∀ c : Caller α ρ, c.id = k → ((f c).late ↔ c.late ∨ a = .giveUp k))
    (ha : ∀ j, a = .giveUp j → j = k) (hw : ∀ id, a ≠ .watch id) :
    Rung [a] s (s.rouse k f) where
  same := rfl
  callers := by
    refine ⟨fun c => if c.id = k then f c else c, ?_, fun c => ?_⟩
    · rfl
    · dsimp only
      by_cases hc : c.id = k
      · refine ⟨by simpa [hc] using (hf c).1, by simpa [hc, eq_comm] using (hf c).2, ?_⟩
        rw [if_pos hc, hlate c hc, List.mem_singleton, hc, eq_comm (a := a)]
      · refine ⟨by simpa [hc] using Caller.Continues.refl c, by simp [hc], ?_⟩
        rw [if_neg hc, List.mem_singleton]
        exact ⟨.inl, fun h => h.elim (fun h => h) fun h => absurd (ha _ h.symm) hc⟩
  ready := by
    obtain ⟨more, heq, hno⟩ := (aside_enqueue { s with callers := _ } (t := .caller k)
      (fun _ h => by cases h)).ready
    exact ⟨more, heq, hno⟩
  woken j hj := by
    obtain rfl := ha j (List.mem_singleton.mp hj).symm
    exact mem_enqueue _ _
  watches id hid := absurd (List.mem_singleton.mp hid).symm (hw id)

/-- An alarm that is nobody's deadline makes a task ready, and does nothing else. -/
theorem rung_enqueue (s : Switchboard α ρ) {t : Task} {a : Alarm} (ht : ∀ id, t ≠ .expire id)
    (ha : ∀ k, a ≠ .giveUp k) (hw : ∀ id, a = .watch id → t = .watch id) :
    Rung [a] s (s.enqueue t) where
  same := rfl
  callers := by
    refine ⟨id, (List.map_id _).symm, fun c => ⟨.refl c, .inl rfl, ?_⟩⟩
    simp [(ha c.id).symm]
  ready := (s.aside_enqueue ht).ready
  woken k hk := absurd (List.mem_singleton.mp hk).symm (ha k)
  watches id hid := hw id (List.mem_singleton.mp hid).symm ▸ mem_enqueue s t

/-- One alarm rings. -/
theorem rung_sound (s : Switchboard α ρ) (a : Alarm) : Rung [a] s (s.sound a) := by
  cases a with
  | ripen k =>
    exact rung_rouse s k
      (fun c => ⟨⟨rfl, rfl, rfl, fun h => ripened_eq_waiting_iff.mpr h⟩, .inr ⟨rfl, rfl⟩⟩)
      (fun c _ => by simp) (fun j hj => by cases hj) (fun _ heq => by cases heq)
  | giveUp k =>
    exact rung_rouse s k (fun c => ⟨⟨rfl, rfl, rfl, fun h => h⟩, .inl rfl⟩) (fun c _ => by simp)
      (fun j hj => by cases hj; rfl) (fun _ heq => by cases heq)
  | announce g =>
    exact s.rung_enqueue (fun _ heq => by cases heq) (fun _ heq => by cases heq)
      (fun _ heq => by cases heq)
  | watch id =>
    exact s.rung_enqueue (fun _ heq => by cases heq) (fun _ heq => by cases heq)
      (fun _ heq => by cases heq; rfl)

/-- All alarms of an instant ring. -/
theorem rung_foldl (alarms : List Alarm) (s : Switchboard α ρ) :
    Rung alarms s (alarms.foldl Switchboard.sound s) := by
  induction alarms generalizing s with
  | nil => exact .refl s
  | cons a rest ih => exact (s.rung_sound a).trans (ih _)

/-- What the clock going to a later instant changes: the timers that are due have run out, and
have roused their callers. -/
structure Ticked (s : Switchboard α ρ) (instant : Nat) (s' : Switchboard α ρ) : Prop where
  now_eq : s'.now = max s.now instant
  same : s' =
    { s with now := s'.now, timers := s'.timers, callers := s'.callers, ready := s'.ready }
  timers_eq : s'.timers = s.timers.filter (s'.now < ·.due)
  callers : ∃ f : Caller α ρ → Caller α ρ, s'.callers = s.callers.map f ∧ ∀ c, c.Rests (f c) ∧
    ((f c).stage = c.stage ∨ (∃ t ∈ s.timers, t.due ≤ s'.now ∧ t.alarm = .ripen c.id) ∧
      (f c).stage = ripened c.stage) ∧
    ((f c).late ↔ c.late ∨ ∃ t ∈ s.timers, t.due ≤ s'.now ∧ t.alarm = .giveUp c.id)
  ready : ∃ more, s'.ready = s.ready ++ more ∧ ∀ id, .expire id ∉ more
  woken : ∀ t ∈ s.timers, t.due ≤ s'.now → ∀ k, t.alarm = .giveUp k → .caller k ∈ s'.ready
  watches : ∀ t ∈ s.timers, t.due ≤ s'.now → ∀ id, t.alarm = .watch id → .watch id ∈ s'.ready

/-- What comes of the next instant. -/
theorem ticked_tick (s : Switchboard α ρ) (instant : Nat) :
    s.Ticked instant (s.occur (.tick instant)) := by
  have hrung : Rung ((s.timers.filter (·.due ≤ max s.now instant)).map Timer.alarm)
      { s with
        now := max s.now instant
        timers := s.timers.filter (max s.now instant < ·.due) } (s.occur (.tick instant)) :=
    rung_foldl _ _
  generalize s.occur (.tick instant) = s' at hrung ⊢
  have hnow : s'.now = max s.now instant := by rw [hrung.same]
  have halarm : ∀ a, a ∈ (s.timers.filter (·.due ≤ max s.now instant)).map Timer.alarm ↔
      ∃ t ∈ s.timers, t.due ≤ s'.now ∧ t.alarm = a := by
    simp [hnow, and_assoc]
  obtain ⟨f, hmap, hf⟩ := hrung.callers
  refine ⟨hnow, ?_, ?_, ⟨f, hmap, fun c => ?_⟩, hrung.ready,
    fun t ht hdue k hk => hrung.woken k ((halarm _).mpr ⟨t, ht, hdue, hk⟩),
    fun t ht hdue id hid => hrung.watches id ((halarm _).mpr ⟨t, ht, hdue, hid⟩)⟩
  · rw [hrung.same]
  · rw [hrung.same]
  · obtain ⟨hcd, hstage, hlate⟩ := hf c
    refine ⟨⟨hcd, fun hwait => ?_⟩, hstage.imp_right (.imp_left (halarm _).mp),
      hlate.trans (or_congr_right (halarm _))⟩
    rcases hstage with heq | ⟨-, heq⟩
    · rwa [heq] at hwait
    · rwa [heq, ripened_eq_waiting_iff] at hwait

section Ticked

variable {s s' : Switchboard α ρ} {instant : Nat} (h : s.Ticked instant s')
include h

/-- The clock does not go back. -/
theorem Ticked.now_le : s.now ≤ s'.now := by
  rw [h.now_eq]
  exact Nat.le_max_left _ _

/-- No exchange is touched by the clock. -/
theorem Ticked.correlator_eq : s'.correlator = s.correlator := by
  rw [h.same]

/-- Nor does anybody yield. -/
theorem Ticked.yielded_eq : s'.yielded = s.yielded := by
  rw [h.same]

/-- Nothing is sent. -/
theorem Ticked.requests_eq : s'.requests = s.requests := by
  rw [requests, h.same, requests]

/-- Nobody answers. -/
theorem Ticked.reports_eq : s'.reports = s.reports := by
  rw [h.same]

/-- The timers that are left are those that are not due. -/
theorem Ticked.mem_timers {t : Timer} (ht : t ∈ s'.timers) : t ∈ s.timers ∧ s'.now < t.due := by
  simpa [h.timers_eq] using ht

/-- No exchange is about to expire that was not. -/
theorem Ticked.unexpired {id : Nat} (hmem : .expire id ∈ s'.ready) : .expire id ∈ s.ready := by
  obtain ⟨more, hready, hno⟩ := h.ready
  rw [hready] at hmem
  exact (List.mem_append.mp hmem).resolve_right (hno id)

/-- What is ready remains so. -/
theorem Ticked.mem_ready {t : Task} (ht : t ∈ s.ready) : t ∈ s'.ready := by
  obtain ⟨more, hready, -⟩ := h.ready
  exact hready ▸ List.mem_append_left _ ht

/-- The callers are the same ones; they are late if they were, or a timer says so. -/
theorem Ticked.mem_callers {d : Caller α ρ} (hd : d ∈ s'.callers) : ∃ c ∈ s.callers, c.Rests d ∧
    (d.late ↔ c.late ∨ ∃ t ∈ s.timers, t.due ≤ s'.now ∧ t.alarm = .giveUp c.id) := by
  obtain ⟨f, hmap, hf⟩ := h.callers
  rw [hmap] at hd
  obtain ⟨c, hc, rfl⟩ := List.mem_map.mp hd
  exact ⟨c, hc, (hf c).1, (hf c).2.2⟩

/-- They have the same numbers. -/
theorem Ticked.ids_eq : s'.callers.map Caller.id = s.callers.map Caller.id := by
  obtain ⟨f, hmap, hf⟩ := h.callers
  rw [hmap, List.map_map]
  exact List.map_congr_left fun c _ => (hf c).1.id_eq.symm

/-- What has lapsed remains so. -/
theorem Ticked.lapsed {ex : Nat} (hl : s.Lapsed ex) : s'.Lapsed ex := by
  obtain ⟨deadline, hd, hle⟩ := hl
  exact ⟨deadline, h.correlator_eq ▸ hd, Nat.le_trans hle h.now_le⟩

/-- What is known of exchanges remains so. -/
theorem Ticked.known {ex : Nat} {spec : Spec α} (hk : s.Known ex spec) : s'.Known ex spec :=
  ⟨h.correlator_eq ▸ hk.registered, h.correlator_eq ▸ hk.matcher, h.correlator_eq ▸ hk.answered⟩

/-- A caller is late once its timer has run out, and that is set to the deadline. -/
theorem Ticked.underway {k ex : Nat} {late late' : Bool} (hu : s.Underway k late ex)
    (hlate : late' ↔ late ∨ ∃ t ∈ s.timers, t.due ≤ s'.now ∧ t.alarm = .giveUp k) :
    s'.Underway k late' ex where
  unsent := h.requests_eq ▸ hu.unsent
  unexpired hmem := hu.unexpired (h.unexpired hmem)
  untimed := h.correlator_eq ▸ hu.untimed
  lapsed hl := by
    rcases hlate.mp hl with hold | ⟨t, ht, hdue, ha⟩
    · exact h.lapsed (hu.lapsed hold)
    · exact ⟨t.due, h.correlator_eq ▸ hu.due t ht ha, hdue⟩
  due t ht ha := h.correlator_eq ▸ hu.due t (h.mem_timers ht).1 ha

/-- A caller whose timer has run out is awake to be stopped. -/
theorem Ticked.guarded {k : Nat} {late late' : Bool} (hg : s.Guarded k late)
    (hlate : late' ↔ late ∨ ∃ t ∈ s.timers, t.due ≤ s'.now ∧ t.alarm = .giveUp k) :
    s'.Guarded k late' := by
  rcases hg with ⟨hl, hmem⟩ | ⟨t, ht, ha⟩
  · exact .inl ⟨hlate.mpr (.inl hl), h.mem_ready hmem⟩
  · by_cases hdue : t.due ≤ s'.now
    · exact .inl ⟨hlate.mpr (.inr ⟨t, ht, hdue, ha⟩), h.woken t ht hdue k ha⟩
    · refine .inr ⟨t, ?_, ha⟩
      rw [h.timers_eq]
      exact List.mem_filter.mpr ⟨ht, by simpa using hdue⟩

/-- Whoever has nothing left to do for its exchange still has not. -/
theorem Ticked.settled {k ex : Nat} {spec : Spec α} (hs : s.Settled k ex spec) :
    s'.Settled k ex spec where
  disarmed t ht := hs.disarmed t (h.mem_timers ht).1
  sent hp := by
    rw [h.correlator_eq] at hp
    rw [h.requests_eq]
    exact (hs.sent hp).imp_right fun hsent => hsent.imp_right h.lapsed

/-- A caller stands to its exchange as it should when the clock has gone on. -/
theorem Ticked.fits {c d : Caller α ρ} {ex : Nat} {spec : Spec α} (hf : s.Fits c ex spec)
    (hcd : c.Rests d)
    (hlate : d.late ↔ c.late ∨ ∃ t ∈ s.timers, t.due ≤ s'.now ∧ t.alarm = .giveUp c.id) :
    s'.Fits d ex spec := by
  refine ⟨h.known hf.known, fun hstage => ?_, fun hstage => ?_⟩
  · obtain ⟨hu, hg⟩ := hf.underway fun heq => hstage (hcd.waiting heq)
    exact hcd.id_eq ▸ ⟨h.underway hu hlate, h.guarded hg hlate⟩
  · exact hcd.id_eq ▸ h.settled (hf.settled (hcd.underway hstage))

/-- Order is kept. -/
theorem Ticked.orderly (ho : s.Orderly) : s'.Orderly where
  sound := h.correlator_eq ▸ ho.sound
  ids_nodup := h.ids_eq ▸ ho.ids_nodup
  ids_lt d hd := by
    obtain ⟨c, hc, hcd, -⟩ := h.mem_callers hd
    rw [h.same, ← hcd.id_eq]
    exact ho.ids_lt c hc
  apart c hc d hd ex hce hde := by
    obtain ⟨c₀, hc₀, hc, -⟩ := h.mem_callers hc
    obtain ⟨d₀, hd₀, hd, -⟩ := h.mem_callers hd
    rw [← hc.id_eq, ← hd.id_eq]
    exact ho.apart c₀ hc₀ d₀ hd₀ ex (hc.goal_eq ▸ hce) (hd.goal_eq ▸ hde)
  requests_lt := by
    rw [h.requests_eq, h.correlator_eq]
    exact ho.requests_lt
  expire_lt id hid := h.correlator_eq ▸ ho.expire_lt id (h.unexpired hid)
  yielded_lapsed id hid := h.lapsed (ho.yielded_lapsed id (h.yielded_eq ▸ hid))
  timers_due t ht := (h.mem_timers ht).2
  timers_lt t ht k hk := by
    rw [h.same]
    exact ho.timers_lt t (h.mem_timers ht).1 k hk
  fits d hd _ ex spec he := by
    obtain ⟨c, hc, hcd, hlate⟩ := h.mem_callers hd
    exact h.fits (ho.fits hc (hcd.goal_eq ▸ he)) hcd hlate

/-- The clock is a way to go on. -/
theorem Ticked.evolves : Evolves [] [] s s' where
  now_le := h.now_le
  deadlines := h.correlator_eq ▸ List.prefix_rfl
  outcomes := h.correlator_eq ▸ List.prefix_rfl
  requests := by
    refine ⟨[], ?_, List.Subset.refl _, fun _ hid => .inl hid⟩
    rw [List.append_nil, h.requests_eq]
  reports := h.reports_eq ▸ List.prefix_rfl
  back d hd _ _ _ := by
    obtain ⟨c, hc, hcd, -⟩ := h.mem_callers hd
    exact ⟨c, hc, hcd.toContinues⟩
  forth c hc _ _ _ := by
    obtain ⟨f, hmap, hf⟩ := h.callers
    exact ⟨f c, hmap ▸ List.mem_map_of_mem hc, (hf c).1⟩
  ready _ _ hk := h.mem_ready hk

end Ticked

/-- It keeps order. -/
theorem keeps_tick (s : Switchboard α ρ) (instant : Nat) :
    Keeps [] [] s (s.occur (.tick instant)) :=
  fun ho => ⟨(s.ticked_tick instant).orderly ho, (s.ticked_tick instant).evolves⟩

end VenueLink.Switchboard

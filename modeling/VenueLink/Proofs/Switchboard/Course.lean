import VenueLink.Proofs.Switchboard.Orderly

/-!
# The course of events

Whatever happens keeps the switchboard in order and undoes nothing that has happened: outcomes,
requests and reports stay, the clock does not go back, and a caller stays with its exchange
until that has ended. `Keeps` says this of two states, along with whose requests have been sent
in between; it composes, so an event is a chain of small steps that keep what they find.

## Main results

* `keeps_caller`, `keeps_of_newcomer`: the turn of a caller, and the first turn of a new one.
* `keeps_handle`: a signal.
* `keeps_getOn`, `keeps_resume`, `keeps_expire`: the watch over an exchange, up to its deadline.
-/

namespace VenueLink.Switchboard

open Exchange Correlator

variable {α ρ : Type}

/-- The state `s'` comes some time after `s`. Since then the callers of `turns` have had turns,
and of the exchanges registered before, those of `sent` have had their requests sent. -/
structure Evolves (sent turns : List Nat) (s s' : Switchboard α ρ) : Prop where
  now_le : s.now ≤ s'.now
  deadlines : s.correlator.deadlines <+: s'.correlator.deadlines
  outcomes : s.correlator.outcomes <+: s'.correlator.outcomes
  requests : ∃ more, s'.requests = s.requests ++ more ∧ sent ⊆ more ∧
    ∀ id ∈ more, id ∈ sent ∨ s.correlator.next ≤ id
  reports : s.reports <+: s'.reports
  back : ∀ d ∈ s'.callers, ∀ ex, d.goal.exchange? = some ex → ex < s.correlator.next →
    ∃ c ∈ s.callers, c.Continues d
  forth : ∀ c ∈ s.callers, ∀ ex, c.goal.exchange? = some ex → c.id ∉ turns →
    ∃ d ∈ s'.callers, c.Rests d
  ready : ∀ k, k ∉ turns → .caller k ∈ s.ready → .caller k ∈ s'.ready

/-- Where nothing happens. -/
theorem Evolves.refl (s : Switchboard α ρ) : Evolves [] [] s s where
  now_le := Nat.le_refl _
  deadlines := List.prefix_rfl
  outcomes := List.prefix_rfl
  requests := ⟨[], (List.append_nil _).symm, List.Subset.refl _, fun _ h => .inl h⟩
  reports := List.prefix_rfl
  back d hd _ _ _ := ⟨d, hd, .refl d⟩
  forth c hc _ _ _ := ⟨c, hc, .refl c⟩
  ready _ _ h := h

section Evolves

variable {sent turns : List Nat} {s s' : Switchboard α ρ} (h : Evolves sent turns s s')
include h

/-- Exchanges are numbered upwards. -/
theorem Evolves.next_le : s.correlator.next ≤ s'.correlator.next :=
  h.deadlines.length_le

/-- An outcome is never changed. -/
theorem Evolves.outcome?_mono {ex : Nat} {o : Outcome α}
    (ho : s.correlator.outcome? ex = some o) : s'.correlator.outcome? ex = some o :=
  outcome?_of_prefix h.outcomes ho

/-- Deadlines stay. -/
theorem Evolves.deadline? {ex deadline : Nat} (hd : s.correlator.deadline? ex = some deadline) :
    s'.correlator.deadline? ex = some deadline :=
  deadline?_of_prefix h.deadlines hd

/-- What has been sent remains so. -/
theorem Evolves.mem_requests {ex : Nat} (hmem : ex ∈ s.requests) : ex ∈ s'.requests := by
  obtain ⟨more, heq, -⟩ := h.requests
  exact heq ▸ List.mem_append_left _ hmem

end Evolves

/-- Two stretches one after the other. -/
theorem Evolves.trans {xs ys ts us : List Nat} {s₁ s₂ s₃ : Switchboard α ρ}
    (h₁ : Evolves xs ts s₁ s₂) (h₂ : Evolves ys us s₂ s₃) :
    Evolves (xs ++ ys) (ts ++ us) s₁ s₃ where
  now_le := Nat.le_trans h₁.now_le h₂.now_le
  deadlines := h₁.deadlines.trans h₂.deadlines
  outcomes := h₁.outcomes.trans h₂.outcomes
  requests := exists_requests_trans h₁.next_le h₁.requests h₂.requests
  reports := h₁.reports.trans h₂.reports
  back d hd ex he hlt := by
    obtain ⟨c, hc, hcd⟩ := h₂.back d hd ex he (Nat.lt_of_lt_of_le hlt h₁.next_le)
    obtain ⟨b, hb, hbc⟩ := h₁.back c hc ex (hcd.goal_eq ▸ he) hlt
    exact ⟨b, hb, hbc.trans hcd⟩
  forth c hc ex he hno := by
    obtain ⟨hno₁, hno₂⟩ := not_or.mp (mt List.mem_append.mpr hno)
    obtain ⟨d, hd, hcd⟩ := h₁.forth c hc ex he hno₁
    obtain ⟨e, he, hde⟩ := h₂.forth d hd ex (hcd.goal_eq ▸ he) (hcd.id_eq ▸ hno₂)
    exact ⟨e, he, hcd.trans hde⟩
  ready k hno hmem := by
    obtain ⟨hno₁, hno₂⟩ := not_or.mp (mt List.mem_append.mpr hno)
    exact h₂.ready k hno₂ (h₁.ready k hno₁ hmem)

/-- More callers may have had turns. -/
theorem Evolves.of_subset {sent ts us : List Nat} {s s' : Switchboard α ρ}
    (h : Evolves sent ts s s') (hsub : ts ⊆ us) : Evolves sent us s s' where
  __ := h
  forth c hc ex he hno := h.forth c hc ex he fun hmem => hno (hsub hmem)
  ready k hno := h.ready k fun hmem => hno (hsub hmem)

/-- From `s` on, order is kept up to `s'`, and nothing that has happened is undone. -/
def Keeps (sent turns : List Nat) (s s' : Switchboard α ρ) : Prop :=
  s.Orderly → s'.Orderly ∧ Evolves sent turns s s'

/-- Order is kept where nothing happens. -/
theorem Keeps.refl (s : Switchboard α ρ) : Keeps [] [] s s :=
  fun h => ⟨h, .refl s⟩

/-- And in two stretches one after the other. -/
theorem Keeps.trans {xs ys ts us : List Nat} {s₁ s₂ s₃ : Switchboard α ρ}
    (h₁ : Keeps xs ts s₁ s₂) (h₂ : Keeps ys us s₂ s₃) : Keeps (xs ++ ys) (ts ++ us) s₁ s₃ := by
  intro h
  obtain ⟨ho₂, hev₂⟩ := h₁ h
  obtain ⟨ho₃, hev₃⟩ := h₂ ho₂
  exact ⟨ho₃, hev₂.trans hev₃⟩

/-- And in many. -/
theorem keeps_foldl {β : Type} {f : Switchboard α ρ → β → Switchboard α ρ}
    (hf : ∀ s b, Keeps [] [] s (f s b)) (l : List β) (s : Switchboard α ρ) :
    Keeps [] [] s (l.foldl f s) := by
  induction l generalizing s with
  | nil => exact .refl s
  | cons b rest ih => exact (hf s b).trans (ih _)

/-- What leaves everything aside is a way to go on. -/
theorem Aside.evolves {s s' : Switchboard α ρ} (h : s.Aside [] s') : Evolves [] [] s s' where
  now_le := Nat.le_of_eq h.now_eq.symm
  deadlines := h.correlator_eq ▸ List.prefix_rfl
  outcomes := h.correlator_eq ▸ List.prefix_rfl
  requests := ⟨[], h.requests_eq, List.Subset.refl _, fun _ h => .inl h⟩
  reports := h.reports_eq ▸ List.prefix_rfl
  back d hd _ _ _ := ⟨d, h.callers_eq ▸ hd, .refl d⟩
  forth c hc _ _ _ := ⟨c, h.callers_eq ▸ hc, .refl c⟩
  ready _ _ hmem := h.mem_ready hmem

/-- And keeps order. -/
theorem Aside.keeps {s s' : Switchboard α ρ} (h : s.Aside [] s') : Keeps [] [] s s' :=
  fun ho => ⟨OrderlyBut.aside ho h, h.evolves⟩

/-! ### What is ready -/

/-- Nobody is underway for an exchange that is about to expire. -/
theorem OrderlyBut.waiting_of_expire {s : Switchboard α ρ} {hand : Option Nat}
    (h : s.OrderlyBut hand) {id : Nat} (hid : .expire id ∈ s.ready) {c : Caller α ρ}
    (hc : c ∈ s.callers) (hne : some c.id ≠ hand) (he : c.goal.exchange? = some id) :
    c.stage = .waiting := by
  by_contra hstage
  obtain ⟨spec, he⟩ := Goal.exchange?_eq_some_iff.mp he
  exact ((h.fits c hc hne id spec he).underway hstage).1.unexpired hid

/-- Only what is ready differs. Callers that are ready stay so, and exchanges only expire when
nobody is underway for them. -/
theorem OrderlyBut.ready {s : Switchboard α ρ} {hand : Option Nat} (h : s.OrderlyBut hand)
    {tasks : List Task} (hcaller : ∀ k, some k ≠ hand → .caller k ∈ s.ready → .caller k ∈ tasks)
    (hlt : ∀ id, .expire id ∈ tasks → id < s.correlator.next)
    (hexpire : ∀ id, .expire id ∈ tasks → ∀ c ∈ s.callers, some c.id ≠ hand →
      c.goal.exchange? = some id → c.stage = .waiting) :
    ({ s with ready := tasks } : Switchboard α ρ).OrderlyBut hand where
  __ := h
  expire_lt := hlt
  fits c hc hne ex spec he := by
    obtain ⟨hknown, hunderway, hsettled⟩ := h.fits c hc hne ex spec he
    refine ⟨⟨hknown.registered, hknown.matcher, hknown.answered⟩, fun hstage => ?_,
      fun hstage => ⟨(hsettled hstage).disarmed, (hsettled hstage).sent⟩⟩
    obtain ⟨hu, hg⟩ := hunderway hstage
    refine ⟨⟨hu.unsent, fun hmem => ?_, hu.untimed, hu.lapsed, hu.due⟩, ?_⟩
    · exact hstage (hexpire ex hmem c hc hne (exchange?_of_errand? he))
    · exact hg.imp_left fun ⟨hlate, hmem⟩ => ⟨hlate, hcaller c.id hne hmem⟩

/-- Some tasks are not ready any more; callers are, but for the one in hand. -/
theorem OrderlyBut.ready_of_subset {s : Switchboard α ρ} {hand : Option Nat}
    (h : s.OrderlyBut hand) {tasks : List Task}
    (hcaller : ∀ k, some k ≠ hand → .caller k ∈ s.ready → .caller k ∈ tasks)
    (hsub : tasks ⊆ s.ready) : ({ s with ready := tasks } : Switchboard α ρ).OrderlyBut hand :=
  h.ready hcaller (fun id hid => h.expire_lt id (hsub hid))
    fun _ hid _ hc hne he => h.waiting_of_expire (hsub hid) hc hne he

/-- Only an exchange that has been registered has lapsed. -/
theorem Lapsed.registered {s : Switchboard α ρ} {ex : Nat} (h : s.Lapsed ex) :
    ex < s.correlator.next := by
  obtain ⟨deadline, hd, -⟩ := h
  exact (List.getElem?_eq_some_iff.mp hd).1

/-- It makes no difference to anybody who has yielded, as long as the deadlines have come. -/
theorem OrderlyBut.yield {s : Switchboard α ρ} {hand : Option Nat} (h : s.OrderlyBut hand)
    {ids : List Nat} (hids : ∀ id ∈ ids, s.Lapsed id) :
    ({ s with yielded := ids } : Switchboard α ρ).OrderlyBut hand where
  __ := h
  yielded_lapsed := hids
  fits c hc hne ex spec he := by
    obtain ⟨hknown, hunderway, hsettled⟩ := h.fits c hc hne ex spec he
    refine ⟨⟨hknown.registered, hknown.matcher, hknown.answered⟩, fun hstage => ?_,
      fun hstage => ⟨(hsettled hstage).disarmed, (hsettled hstage).sent⟩⟩
    obtain ⟨hu, hg⟩ := hunderway hstage
    exact ⟨⟨hu.unsent, hu.unexpired, hu.untimed, hu.lapsed, hu.due⟩, hg⟩

/-- Watches yield on the way. -/
theorem Evolves.yield {sent turns : List Nat} {s s' : Switchboard α ρ}
    (h : Evolves sent turns s s') (ids : List Nat) :
    Evolves sent turns s { s' with yielded := ids } :=
  { h with }

/-- Tasks become ready, or are dropped, but for the turns of callers. -/
theorem evolves_ready {s : Switchboard α ρ} {tasks : List Task} {turns : List Nat}
    (h : ∀ k, k ∉ turns → .caller k ∈ s.ready → .caller k ∈ tasks) :
    Evolves [] turns s { s with ready := tasks } :=
  { (Evolves.refl s).of_subset (List.nil_subset turns) with ready := h }

/-- All signals have been handled. -/
theorem keeps_hush (s : Switchboard α ρ) :
    Keeps [] [] s { s with ready := s.ready.filter (· ≠ .signals) } := by
  intro h
  have hcaller : ∀ k, .caller k ∈ s.ready → .caller k ∈ s.ready.filter (· ≠ .signals) :=
    fun k hk => List.mem_filter.mpr ⟨hk, by simp⟩
  exact ⟨OrderlyBut.ready_of_subset h (fun k _ => hcaller k) List.filter_sublist.subset,
    evolves_ready fun k _ => hcaller k⟩

/-- What is ready first is taken up, and it is not a caller. -/
theorem keeps_pop {s : Switchboard α ρ} {t : Task} {rest : List Task} (hr : s.ready = t :: rest)
    (ht : ∀ k, t ≠ .caller k) : Keeps [] [] s { s with ready := rest } := by
  intro h
  have hcaller : ∀ k, .caller k ∈ s.ready → .caller k ∈ rest := by
    intro k hk
    rw [hr] at hk
    exact (List.mem_cons.mp hk).resolve_left fun heq => ht k heq.symm
  exact ⟨OrderlyBut.ready_of_subset h (fun k _ => hcaller k)
    (hr ▸ List.subset_cons_self t rest), evolves_ready fun k _ => hcaller k⟩

/-- Nobody is underway for an exchange whose deadline has come, unless it is awake: whoever is
not late has a timer set to the deadline, and timers are never late. -/
theorem Orderly.waiting_of_lapsed {s : Switchboard α ρ} (h : s.Orderly) {id : Nat}
    (hl : s.Lapsed id) {c : Caller α ρ} (hc : c ∈ s.callers) (hce : c.goal.exchange? = some id)
    (hready : .caller c.id ∉ s.ready) : c.stage = .waiting := by
  by_contra hstage
  obtain ⟨deadline, hd, hle⟩ := hl
  obtain ⟨spec, hce⟩ := Goal.exchange?_eq_some_iff.mp hce
  obtain ⟨hu, ⟨-, hawake⟩ | ⟨t, ht, ha⟩⟩ := (h.fits hc hce).underway hstage
  · exact hready hawake
  · have hdue : some t.due = some deadline := (hu.due t ht ha).symm.trans hd
    have hlt := h.timers_due t ht
    have := Option.some.inj hdue
    omega

/-- Who has yielded goes on once nothing else is ready: the exchanges are about to expire. -/
theorem keeps_resume {s : Switchboard α ρ} (hr : s.ready = []) :
    Keeps [] [] s s.resume := by
  intro h
  have hlapsed : ∀ id, .expire id ∈ s.resume.ready → s.Lapsed id := by
    intro id hid
    obtain ⟨j, hj, heq⟩ := List.mem_map.mp hid
    obtain rfl := Task.expire.inj heq
    exact h.yielded_lapsed j (List.mem_reverse.mp hj)
  have hcaller : ∀ k, .caller k ∉ s.ready := fun k => hr ▸ List.not_mem_nil
  have hready := OrderlyBut.ready h (fun k _ hk => absurd hk (hcaller k))
    (fun id hid => (hlapsed id hid).registered)
    (fun id hid c hc _ hce => h.waiting_of_lapsed (hlapsed id hid) hc hce (hcaller c.id))
  have hevolves : Evolves [] [] s { s with ready := s.resume.ready } :=
    evolves_ready fun k _ hk => absurd hk (hcaller k)
  exact ⟨hready.yield fun _ hid => absurd hid List.not_mem_nil, hevolves.yield []⟩

/-- The watch over an exchange sleeps until the deadline, and yields when that has come. -/
theorem keeps_getOn (s : Switchboard α ρ) (exchange : Nat) :
    Keeps [] [] s (s.getOn exchange) := by
  rw [getOn]
  cases hp : s.correlator.pending? exchange with
  | none => exact .refl s
  | some e =>
    obtain ⟨he, rfl⟩ := mem_of_pending?_eq_some hp
    dsimp only
    split
    · exact (s.aside_arm (by omega) fun _ heq => by cases heq).keeps
    · next hdue =>
      refine fun h => ⟨OrderlyBut.yield h fun id hid => ?_, (Evolves.refl s).yield _⟩
      rcases List.mem_append.mp hid with hold | hnew
      · exact h.yielded_lapsed id hold
      · obtain rfl := List.mem_singleton.mp hnew
        exact ⟨e.deadline, h.sound.deadline_eq e he, Nat.le_of_not_lt hdue⟩

/-! ### Turns -/

/-- What a turn does that begins at a state `s₀`, which differs from the one before the event
only in what is ready and in the id of the next caller. -/
theorem evolves_of_turn {s s₀ s' : Switchboard α ρ} {k : Nat} {sent turns : List Nat}
    (h₀ : Evolves [] turns s s₀) (hnd : (s₀.callers.map Caller.id).Nodup)
    (hturn : Spares k sent s₀ s') (hland : Lands k s₀ s')
    (hk : ∀ c ∈ s₀.callers, ∀ ex, c.goal.exchange? = some ex → c.id = k → k ∈ turns) :
    Evolves sent turns s s' := by
  obtain ⟨-, hcallers⟩ := hturn.callers hnd
  obtain ⟨more, heq, -⟩ := hturn.outcomes
  refine (h₀.trans ⟨Nat.le_of_eq hturn.now_eq.symm, hturn.deadlines,
    heq ▸ List.prefix_append _ _, hturn.requests, hturn.reports, fun d hd ex he hlt => ?_,
    fun c hc ex he hno => ?_, fun j _ hj => ?_⟩).of_subset
      (List.append_subset.mpr ⟨fun _ h => h, fun _ h => h⟩)
  · by_cases hdk : d.id = k
    · obtain ⟨spec, he⟩ := Goal.exchange?_eq_some_iff.mp he
      rcases (hland d hd hdk ex spec he).2 with hnew | hold
      · omega
      · exact hold
    · exact ⟨d, (hcallers d hdk).mp hd, .refl d⟩
  · have hck : c.id ≠ k := fun hck => hno (hck ▸ hk c hc ex he hck)
    exact ⟨c, (hcallers c hck).mpr hc, .refl c⟩
  · exact hturn.mem_ready hj

/-- A caller is taken up for its turn. -/
theorem orderlyBut_pop {s : Switchboard α ρ} (h : s.Orderly) {k : Nat} {rest : List Task}
    (hr : s.ready = .caller k :: rest) :
    ({ s with ready := rest } : Switchboard α ρ).OrderlyBut (some k) := by
  refine OrderlyBut.ready_of_subset (orderlyBut_of_orderly h _) (fun j hj hmem => ?_) ?_
  · rw [hr] at hmem
    exact (List.mem_cons.mp hmem).resolve_left fun heq => hj (by rw [Task.caller.inj heq])
  · rw [hr]
    exact List.subset_cons_self _ rest

/-- A caller that is taken up for its turn stands to its exchange as before, but for being
awake. -/
theorem poised_of_ready {s : Switchboard α ρ} (h : s.Orderly) {rest : List Task}
    {c : Caller α ρ} (hr : s.ready = .caller c.id :: rest) (hc : c ∈ s.callers) {ex : Nat}
    {spec : Spec α} (he : c.goal.errand? = some (ex, spec)) :
    ({ s with ready := rest } : Switchboard α ρ).Poised c ex spec := by
  obtain ⟨hknown, hunderway, hsettled⟩ := h.fits hc he
  refine ⟨⟨hknown.registered, hknown.matcher, hknown.answered⟩, fun hstage => ?_,
    fun hstage hlate => ?_, fun hstage => ⟨(hsettled hstage).disarmed, (hsettled hstage).sent⟩⟩
  · obtain ⟨hu, -⟩ := hunderway hstage
    refine ⟨hu.unsent, fun hmem => hu.unexpired ?_, hu.untimed, hu.lapsed, hu.due⟩
    exact hr ▸ List.mem_cons_of_mem _ hmem
  · rcases (hunderway hstage).2 with ⟨hl, -⟩ | htimer
    · rw [hlate] at hl
      cases hl
    · exact htimer

/-- Callers with the same number are the same. -/
theorem eq_of_id_eq {s : Switchboard α ρ} (hnd : (s.callers.map Caller.id).Nodup)
    {c d : Caller α ρ} (hc : c ∈ s.callers) (hd : d ∈ s.callers) (h : c.id = d.id) : c = d :=
  List.inj_on_of_nodup_map hnd hc hd h

/-- A caller that is found by its number is there. -/
theorem mem_of_caller?_eq_some {s : Switchboard α ρ} {k : Nat} {c : Caller α ρ}
    (h : s.caller? k = some c) : c ∈ s.callers ∧ c.id = k :=
  ⟨List.mem_of_find?_eq_some h, by simpa using List.find?_some h⟩

/-- Nobody is found under a number exactly if nobody has it. -/
theorem caller?_eq_none_iff {s : Switchboard α ρ} {k : Nat} :
    s.caller? k = none ↔ ∀ c ∈ s.callers, c.id ≠ k := by
  simp [caller?]

/-- A caller that is there is found by its number. -/
theorem caller?_of_mem {s : Switchboard α ρ} (hnd : (s.callers.map Caller.id).Nodup)
    {c : Caller α ρ} (hc : c ∈ s.callers) : s.caller? c.id = some c := by
  cases hf : s.caller? c.id with
  | none => exact absurd rfl (caller?_eq_none_iff.mp hf c hc)
  | some d =>
    obtain ⟨hd, hid⟩ := mem_of_caller?_eq_some hf
    rw [eq_of_id_eq hnd hd hc hid]

/-- The exchange whose request is sent when what is ready first is done. -/
def sentNext (s : Switchboard α ρ) : List Nat :=
  match s.ready with
  | .caller k :: rest =>
    match s.caller? k with
    | some c => ({ s with ready := rest } : Switchboard α ρ).sentBy c
    | none => []
  | _ => []

/-- A caller that is ready has its turn. -/
theorem keeps_caller {s : Switchboard α ρ} {k : Nat} {rest : List Task}
    (hr : s.ready = .caller k :: rest) :
    Keeps s.sentNext [k] s
      (({ s with ready := rest } : Switchboard α ρ).perform (.caller k)) := by
  intro h
  have hpop := orderlyBut_pop h hr
  have hready : Evolves [] [k] s { s with ready := rest } := by
    refine evolves_ready fun j hj hmem => ?_
    rw [hr] at hmem
    exact (List.mem_cons.mp hmem).resolve_left fun heq =>
      hj (List.mem_singleton.mpr (Task.caller.inj heq))
  have hsent : s.sentNext = match ({ s with ready := rest } : Switchboard α ρ).caller? k with
      | some c => ({ s with ready := rest } : Switchboard α ρ).sentBy c
      | none => [] := by
    rw [sentNext, hr]
    rfl
  rw [perform, hsent]
  cases hf : ({ s with ready := rest } : Switchboard α ρ).caller? k with
  | none =>
    have hnone : ∀ c ∈ s.callers, c.id ≠ k := caller?_eq_none_iff.mp hf
    refine ⟨⟨hpop.sound, hpop.ids_nodup, hpop.ids_lt, hpop.apart, hpop.requests_lt,
      hpop.expire_lt, hpop.yielded_lapsed, hpop.timers_due, hpop.timers_lt,
      fun c hc _ => hpop.fits c hc ?_⟩, hready⟩
    simpa using hnone c hc
  | some c =>
    obtain ⟨hc, rfl⟩ : c ∈ s.callers ∧ c.id = k := mem_of_caller?_eq_some hf
    have hp : ∀ ex spec, c.goal.errand? = some (ex, spec) →
        ({ s with ready := rest } : Switchboard α ρ).Poised c ex spec :=
      fun ex spec he => poised_of_ready h hr hc he
    have hturn := spares_tend hpop hp
    have hland := lands_tend hpop hc hp
    refine ⟨hpop.land hturn (h.ids_lt c hc) (fun ex hex => ⟨c, hc, rfl, mem_sentBy hex⟩) hland,
      ?_⟩
    exact evolves_of_turn hready h.ids_nodup hturn hland
      fun _ _ _ _ _ => List.mem_singleton.mpr rfl

/-! ### Newcomers -/

/-- The id of the next caller has been given away. -/
def enlist (s : Switchboard α ρ) : Switchboard α ρ :=
  { s with next := s.next + 1 }

/-- A new number is given out. -/
theorem evolves_enlist (s : Switchboard α ρ) : Evolves [] [] s s.enlist :=
  { Evolves.refl s with }

/-- Whoever has the new number is not there yet. -/
theorem orderlyBut_enlist {s : Switchboard α ρ} (h : s.Orderly) (hand : Option Nat) :
    s.enlist.OrderlyBut hand where
  sound := h.sound
  ids_nodup := h.ids_nodup
  ids_lt c hc := Nat.lt_succ_of_lt (h.ids_lt c hc)
  apart := h.apart
  requests_lt := h.requests_lt
  expire_lt := h.expire_lt
  yielded_lapsed := h.yielded_lapsed
  timers_due := h.timers_due
  timers_lt t ht k hk := Nat.lt_succ_of_lt (h.timers_lt t ht k hk)
  fits c hc _ ex spec he := by
    obtain ⟨hknown, hunderway, hsettled⟩ := h.fits hc he
    refine ⟨⟨hknown.registered, hknown.matcher, hknown.answered⟩, fun hstage => ?_,
      fun hstage => ⟨(hsettled hstage).disarmed, (hsettled hstage).sent⟩⟩
    obtain ⟨hu, hg⟩ := hunderway hstage
    exact ⟨⟨hu.unsent, hu.unexpired, hu.untimed, hu.lapsed, hu.due⟩, hg⟩

/-- And it may start on something. -/
theorem idle_enlist {s : Switchboard α ρ} (h : s.Orderly) : s.enlist.Idle s.next :=
  (orderlyBut_enlist h none).idle fun t ht ha => Nat.lt_irrefl _ (h.timers_lt t ht _ ha)

/-- A newcomer takes its first turn. -/
theorem keeps_of_newcomer {s s' : Switchboard α ρ}
    (hturn : s.Orderly → Spares s.next [] s.enlist s')
    (hland : s.Orderly → Lands s.next s.enlist s') : Keeps [] [] s s' := by
  refine fun h => ⟨(orderlyBut_enlist h _).land (hturn h) (Nat.lt_succ_self _)
    (fun ex hex => absurd hex List.not_mem_nil) (hland h), ?_⟩
  refine evolves_of_turn (evolves_enlist s) h.ids_nodup (hturn h) (hland h)
    fun c hc _ _ hck => ?_
  exact absurd hck (Nat.ne_of_lt (h.ids_lt c hc))

/-- A plan is launched. -/
theorem keeps_launch (s : Switchboard α ρ) (label : String) {n : Nat} (plan : Plan α ρ n) :
    Keeps [] [] s (s.launch label plan) :=
  keeps_of_newcomer (fun h => spares_pursue (idle_enlist h) label plan)
    fun h _ hd hid _ _ he => (fits_pursue (idle_enlist h) hd hid he).imp_right .inl

/-- What a demand for an open link comes to. -/
theorem ensureOpen_eq (s : Switchboard α ρ) (label : String)
    (tell : Except OperationError Readiness → ρ) :
    s.ensureOpen label tell = match (s.enlist.seekOpen s.next).2 with
      | .blocked stage =>
        (s.enlist.seekOpen s.next).1.keep ⟨s.next, label, stage, false, .readiness tell⟩
      | .granted readiness =>
        (s.enlist.seekOpen s.next).1.finish s.next label (tell (.ok readiness))
      | .refused e => (s.enlist.seekOpen s.next).1.finish s.next label (tell (.error e)) := by
  rw [ensureOpen]
  dsimp only [enlist]
  generalize seekOpen _ s.next = p
  obtain ⟨s₁, access⟩ := p
  cases access <;> rfl

/-- A demand for an open link is the business of its caller only. -/
theorem spares_ensureOpen (s : Switchboard α ρ) (label : String)
    (tell : Except OperationError Readiness → ρ) :
    Spares s.next [] s.enlist (s.ensureOpen label tell) := by
  have hseek := (s.enlist.aside_seekOpen s.next).spares_nil s.next
  rw [ensureOpen_eq]
  generalize s.enlist.seekOpen s.next = p at hseek ⊢
  obtain ⟨s₁, access⟩ := p
  cases access with
  | blocked stage =>
    exact hseek.then_nil (s₁.spares_keep ⟨s.next, label, stage, false, .readiness tell⟩)
  | granted readiness => exact hseek.then_nil (s₁.spares_finish s.next label _)
  | refused e => exact hseek.then_nil (s₁.spares_finish s.next label _)

/-- Who asks for a connection has no exchange. -/
theorem keeps_ensureOpen (s : Switchboard α ρ) (label : String)
    (tell : Except OperationError Readiness → ρ) : Keeps [] [] s (s.ensureOpen label tell) := by
  refine keeps_of_newcomer (fun _ => s.spares_ensureOpen label tell)
    (fun h d hd hid ex spec he => ?_)
  have hnd := (((s.enlist.aside_seekOpen s.next).spares_nil s.next).callers h.ids_nodup).1
  rw [ensureOpen_eq] at hd
  generalize s.enlist.seekOpen s.next = p at hd hnd
  obtain ⟨s₁, access⟩ := p
  cases access with
  | granted readiness => exact absurd hid (not_mem_finish hd)
  | refused e => exact absurd hid (not_mem_finish hd)
  | blocked stage =>
    rcases (mem_keep hnd).mp hd with rfl | ⟨-, hne⟩
    · simp [Goal.errand?] at he
    · exact absurd hid hne

/-- What a caller listens for: it has nothing to send. -/
def listening (m : Matcher α) (timeout : Nat) : Spec α :=
  ⟨.null, m, timeout, 0⟩

/-- So is a demand for messages. -/
theorem spares_listen (s : Switchboard α ρ) (label : String) (m : Matcher α) (timeout : Nat)
    (tell : Resolution α → ρ) : Spares s.next [] s.enlist (s.listen label m timeout tell) :=
  (s.enlist.spares_register s.next m timeout).then_nil
    ((s.enlist.enrol (listening m timeout)).spares_keep ⟨s.next, label, .waiting, false,
      .exchange s.correlator.next (listening m timeout) 0 fun r => .report (tell r)⟩)

/-- Who only listens has nothing to send, and waits at once. -/
theorem keeps_listen (s : Switchboard α ρ) (label : String) (m : Matcher α) (timeout : Nat)
    (tell : Resolution α → ρ) : Keeps [] [] s (s.listen label m timeout tell) := by
  refine keeps_of_newcomer (fun _ => s.spares_listen label m timeout tell)
    (fun h d hd hid ex spec he => ?_)
  have hnd := ((s.enlist.spares_register s.next m timeout).callers h.ids_nodup).1
  rcases (mem_keep hnd).mp hd with rfl | ⟨-, hne⟩
  · simp only [Goal.errand?, Option.some.injEq, Prod.mk.injEq] at he
    obtain ⟨rfl, rfl⟩ := he
    have hfits : (s.enlist.enrol (listening m timeout)).Fits
        ⟨s.next, label, .waiting, false,
          .exchange s.correlator.next (listening m timeout) 0 fun r => .report (tell r)⟩
        s.correlator.next (listening m timeout) :=
      ⟨known_enrol (s := s.enlist) h.sound (listening m timeout), fun hne => absurd rfl hne,
        fun _ => ⟨(idle_enlist h).disarmed, fun _ => .inr (.inl rfl)⟩⟩
    exact ⟨hfits.keep _, .inl (Nat.le_refl _)⟩
  · exact absurd hid hne

/-- And so is the stop of a caller. -/
theorem spares_stop (s : Switchboard α ρ) (c : Caller α ρ) :
    Spares c.id [] s ((s.stopAt c.stage).dismiss c.id) :=
  ((s.aside_stopAt c.stage).spares_nil c.id).then_nil (spares_dismiss _ c.id)

/-- Only who asks for a connection can be stopped. -/
theorem keeps_cancel (s : Switchboard α ρ) (label : String) :
    Keeps [] [] s (s.cancel label) := by
  rw [cancel]
  cases hf : s.callers.reverse.find? fun c => c.label = label && c.goal.exchange?.isNone with
  | none => exact .refl s
  | some c =>
    intro h
    have hc : c ∈ s.callers := List.mem_reverse.mp (List.mem_of_find?_eq_some hf)
    have hnone : c.goal.exchange? = none := by
      have := List.find?_some hf
      simp only [Bool.and_eq_true, Option.isNone_iff_eq_none] at this
      exact this.2
    have hturn := s.spares_stop c
    have hland : Lands c.id s ((s.stopAt c.stage).dismiss c.id) := by
      intro d hd hid
      have := (List.mem_filter.mp hd).2
      simp [hid] at this
    refine ⟨(orderlyBut_of_orderly h _).land hturn (h.ids_lt c hc)
      (fun ex hex => absurd hex List.not_mem_nil) hland, ?_⟩
    refine evolves_of_turn (.refl s) h.ids_nodup hturn hland fun d hd ex hex hdc => ?_
    obtain rfl := eq_of_id_eq h.ids_nodup hd hc hdc
    rw [hnone] at hex
    cases hex

/-! ### Signals -/

/-- Exchanges end, and nothing else changes. -/
theorem evolves_close {s : Switchboard α ρ} {ended : List (Outcome α)} {c' : Correlator α}
    (hends : s.correlator.Ends ended c') : Evolves [] [] s { s with correlator := c' } :=
  { Evolves.refl s with
    deadlines := hends.deadlines_eq ▸ List.prefix_rfl
    outcomes := hends.outcomes_eq ▸ List.prefix_append _ _ }

/-- A message is offered to the open exchanges. -/
theorem keeps_dispatch (s : Switchboard α ρ) (m : Json) : Keeps [] [] s (s.dispatch m) := by
  intro h
  have hends := ends_dispatch h.sound s.now m
  have hclose : ({ s with correlator := (s.correlator.dispatch s.now m).1 } :
      Switchboard α ρ).Orderly := by
    refine OrderlyBut.close h hends (fun o ho a ha => ?_) (fun o ho seen hseen => ?_)
    · obtain ⟨⟨e, r⟩, hp, rfl⟩ := List.mem_map.mp ho
      obtain ⟨d, hd, rfl, hdec⟩ := mem_decided hp
      obtain rfl : r = .matched a := ha
      obtain ⟨hacc, rfl⟩ := decide?_matched hdec
      rw [matcher_record] at hacc ⊢
      exact ⟨d, hd, (Entry.id_record _ _ _).symm, hacc, rfl⟩
    · obtain ⟨⟨e, r⟩, hp, rfl⟩ := List.mem_map.mp ho
      obtain ⟨d, hd, rfl, hdec⟩ := mem_decided hp
      obtain rfl : r = .failed ⟨.timeout, seen⟩ := hseen
      have := decide?_failed hdec
      simp at this
  have hwire := aside_wire { s with correlator := (s.correlator.dispatch s.now m).1 }
    (w := { s.wire with pruned := s.wire.pruned ++ (s.correlator.dispatch s.now m).2.pruned })
      rfl
  have hwake := aside_foldl_wakeWaiting (s.correlator.dispatch s.now m).2.resolved
    { s with
      correlator := (s.correlator.dispatch s.now m).1
      wire :=
        { s.wire with pruned := s.wire.pruned ++ (s.correlator.dispatch s.now m).2.pruned } }
  obtain ⟨ho, hev⟩ := (hwire.trans_nil hwake).keeps hclose
  exact ⟨ho, (evolves_close hends).trans hev⟩

/-- All open exchanges fail. -/
theorem keeps_failAll (s : Switchboard α ρ) : Keeps [] [] s s.failAll := by
  intro h
  have hends := ends_failAll h.sound s.now .connectionLost
  have hlost : ∀ o ∈ s.correlator.entries.map fun e =>
      (⟨e.id, s.now, e.failure .connectionLost⟩ : Outcome α),
      ∃ seen, o.resolution = .failed ⟨.connectionLost, seen⟩ := by
    intro o ho
    obtain ⟨e, -, rfl⟩ := List.mem_map.mp ho
    exact ⟨e.transcript, rfl⟩
  have hclose : ({ s with correlator := (s.correlator.failAll s.now .connectionLost).1 } :
      Switchboard α ρ).Orderly := by
    refine OrderlyBut.close h hends (fun o ho a ha => ?_) (fun o ho seen hseen => ?_)
    · obtain ⟨seen, hl⟩ := hlost o ho
      rw [hl] at ha
      cases ha
    · obtain ⟨seen', hl⟩ := hlost o ho
      rw [hl] at hseen
      cases hseen
  obtain ⟨ho, hev⟩ := (aside_foldl_wakeWaiting s.correlator.pendingIds _).keeps hclose
  exact ⟨ho, (evolves_close hends).trans hev⟩

/-- A signal is handled. -/
theorem keeps_handle (s : Switchboard α ρ) (signal : Signal) :
    Keeps [] [] s (s.handle signal) := by
  simp only [handle]
  split
  · exact .refl s
  · cases signal with
    | opened g =>
      exact (s.aside_greet.trans_nil ((aside_link _ _).trans_nil (aside_wakeWhere _ _))).keeps
    | message g payload => exact s.keeps_dispatch payload
    | closed g reason =>
      exact ((s.aside_link _).trans_nil (aside_wakeWhere _ _)).keeps.trans (keeps_failAll _)

/-- The signals that have been taken in are handled. -/
theorem keeps_sift (s : Switchboard α ρ) : Keeps [] [] s s.sift :=
  (s.aside_inbox []).keeps.trans (keeps_foldl keeps_handle _ _)

/-- And those that come in meanwhile. -/
theorem keeps_drain (s : Switchboard α ρ) : Keeps [] [] s s.drain :=
  (s.keeps_sift.trans (keeps_sift _)).trans (keeps_hush _)

/-! ### Deadlines -/

/-- An exchange that was about to expire does. -/
theorem keeps_expire {s : Switchboard α ρ} {id : Nat} {rest : List Task}
    (hr : s.ready = .expire id :: rest) :
    Keeps [] [] s (({ s with ready := rest } : Switchboard α ρ).perform (.expire id)) := by
  intro h
  obtain ⟨hpop, hev⟩ := keeps_pop hr (fun _ heq => by cases heq) h
  have hwake : ∀ s : Switchboard α ρ, Keeps [] [] s (s.wakeWaiting id) :=
    fun s => (s.aside_wakeWhere _).keeps
  by_cases hp : id ∈ s.correlator.pendingIds
  · obtain ⟨e, he, rfl⟩ := List.mem_map.mp hp
    have hends := ends_expire h.sound s.now he
    have hclose : ({ s with ready := rest, correlator := s.correlator.expire s.now e.id } :
        Switchboard α ρ).Orderly := by
      refine OrderlyBut.close hpop hends (fun o ho a ha => ?_) (fun o ho seen _ c hc hce => ?_)
      · obtain rfl := List.mem_singleton.mp ho
        cases ha
      · obtain rfl := List.mem_singleton.mp ho
        exact OrderlyBut.waiting_of_expire h (hr ▸ List.mem_cons_self) hc (by simp) hce
    obtain ⟨ho, hev'⟩ := hwake _ hclose
    exact ⟨ho, (hev.trans (evolves_close hends)).trans hev'⟩
  · rw [perform, expire_of_not_pending hp]
    obtain ⟨ho, hev'⟩ := hwake _ hpop
    exact ⟨ho, hev.trans hev'⟩

end VenueLink.Switchboard

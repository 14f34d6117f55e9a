import VenueLink.Proofs.Switchboard.Fate

/-!
# How a caller gets on with its plan

A caller that starts on a plan runs the exchanges of the plan one after the other and reports at
the end. Each exchange is one that was registered for it, and the plan goes on from what this
exchange came to, so a report is what the plan `Leads` to along the ends of its exchanges.

## Main results

* `gotOn_pursue`: what becomes of a caller in the turn in which it starts on a plan.
* `gotOn_launch`: at any later time the caller of a plan has come to one of its exchanges, or
  has reported what the plan leads to.
-/

namespace VenueLink

open Exchange Correlator

variable {α ρ σ : Type}

namespace Exchange.Plan

/-- A plan leads to another along exchanges that end as `ends` says. -/
inductive Leads (ends : Spec α → Resolution α → Prop) :
    {n m : Nat} → Plan α ρ n → Plan α ρ m → Prop where
  | refl {n : Nat} (p : Plan α ρ n) : Leads ends p p
  | step {n m : Nat} {spec : Spec α} {next : Resolution α → Plan α ρ n} {r : Resolution α}
      {p : Plan α ρ m} : ends spec r → Leads ends (next r) p →
        Leads ends (.exchange spec next) p

section Leads

variable {ends : Spec α → Resolution α → Prop} {l m n : Nat}

/-- One way along exchanges after another. -/
theorem Leads.trans {p₁ : Plan α ρ l} {p₂ : Plan α ρ m} {p₃ : Plan α ρ n}
    (h₁ : Leads ends p₁ p₂) (h₂ : Leads ends p₂ p₃) : Leads ends p₁ p₃ := by
  induction h₁ with
  | refl p => exact h₂
  | step hends _ ih => exact .step hends (ih h₂)

/-- One more exchange ends. -/
theorem Leads.snoc {p : Plan α ρ l} {spec : Spec α} {next : Resolution α → Plan α ρ n}
    (h : Leads ends p (.exchange spec next)) {r : Resolution α} (hends : ends spec r) :
    Leads ends p (next r) :=
  h.trans (.step hends (.refl _))

/-- The exchanges may be asked to end in a weaker sense. -/
theorem Leads.mono {ends' : Spec α → Resolution α → Prop}
    (hmono : ∀ spec r, ends spec r → ends' spec r) {p : Plan α ρ l} {q : Plan α ρ m}
    (h : Leads ends p q) : Leads ends' p q := by
  induction h with
  | refl p => exact .refl p
  | step hends _ ih => exact .step (hmono _ _ hends) ih

/-- A report leads to nothing but itself. -/
theorem eq_of_leads_report {x y : ρ}
    (h : Leads ends (.report x : Plan α ρ m) (.report y : Plan α ρ n)) : x = y := by
  cases h with
  | refl => rfl

/-- A plan that begins with an exchange leads on by the end of that. -/
theorem Leads.uncons {spec : Spec α} {next : Resolution α → Plan α ρ m} {x : ρ}
    (h : Leads ends (.exchange spec next) (.report x : Plan α ρ n)) :
    ∃ r, ends spec r ∧ Leads ends (next r) (.report x : Plan α ρ n) := by
  cases h with
  | step hends hrest => exact ⟨_, hends, hrest⟩

/-- What a plan leads to does not depend on what is made of it. -/
theorem Leads.of_map {f : ρ → σ} {plan : Plan α ρ m} {y : σ}
    (h : Leads ends (plan.map f) (.report y : Plan α σ n)) :
    ∃ x, Leads ends plan (.report x : Plan α ρ n) ∧ f x = y := by
  induction plan with
  | report x =>
    cases h with
    | refl => exact ⟨x, .refl _, rfl⟩
  | exchange spec next ih =>
    obtain ⟨r, hends, hrest⟩ := h.uncons
    obtain ⟨x, hx, rfl⟩ := ih r hrest
    exact ⟨x, .step hends hx, rfl⟩

end Leads

end Exchange.Plan

namespace Switchboard

/-- How an exchange ended, if it has. -/
def resolution? (s : Switchboard α ρ) (ex : Nat) : Option (Resolution α) :=
  (s.correlator.outcome? ex).map Outcome.resolution

/-- The resolution of an exchange is that of its outcome. -/
theorem resolution?_eq_some_iff {s : Switchboard α ρ} {ex : Nat} {r : Resolution α} :
    s.resolution? ex = some r ↔ ∃ o, s.correlator.outcome? ex = some o ∧ o.resolution = r :=
  Option.map_eq_some_iff

/-- The caller `k` has come from a plan that it started on in `s` to one of the exchanges of the
plan, or has told what the plan leads to. -/
def GotOn (ends : Spec α → Resolution α → Prop) (told : ρ → Prop) (s s' : Switchboard α ρ)
    (k : Nat) (label : String) {n : Nat} (plan : Plan α ρ n) : Prop :=
  (∃ c ∈ s'.callers, c.id = k ∧ c.label = label ∧ ∃ ex spec m next,
    c.goal = .exchange ex spec m next ∧ s.correlator.next ≤ ex ∧
      plan.Leads ends (.exchange spec next)) ∨
  ∃ r m, told r ∧ plan.Leads ends (.report r : Plan α ρ m)

/-- An exchange that was registered since an earlier state has failed. -/
def Fell (s s' : Switchboard α ρ) (_ : Spec α) (r : Resolution α) : Prop :=
  ∃ ex f, s.correlator.next ≤ ex ∧ s'.resolution? ex = some r ∧ r = .failed f

/-- What was registered since a later state was registered since an earlier one. -/
theorem Fell.of_le {s s₁ s' : Switchboard α ρ} (hle : s.correlator.next ≤ s₁.correlator.next)
    {spec : Spec α} {r : Resolution α} (h : s₁.Fell s' spec r) : s.Fell s' spec r := by
  obtain ⟨ex, f, hex, hres, hr⟩ := h
  exact ⟨ex, f, Nat.le_trans hle hex, hres, hr⟩

/-- In the turn in which a caller starts on a plan, it comes to an exchange or reports; the
exchanges on the way have failed. -/
theorem gotOn_pursue {s : Switchboard α ρ} {k : Nat} (hi : s.Idle k) (label : String) {n : Nat}
    (plan : Plan α ρ n) :
    GotOn (s.Fell (s.pursue k label plan)) (s.Leaves (s.pursue k label plan) k label) s
      (s.pursue k label plan) k label plan := by
  induction plan generalizing s with
  | @report n r => exact .inr ⟨r, n, s.leaves_finish k label r, .refl _⟩
  | exchange spec next ih =>
    obtain ⟨hturn, hfits⟩ := begin_spec hi label spec
      (.exchange s.correlator.next spec _ next)
    have hreports := (s.stays_begin k spec).reports_eq
    rw [pursue_exchange]
    generalize s.begin k spec = p at hturn hfits hreports ⊢
    obtain ⟨s₁, stage⟩ := p
    dsimp only at hturn hfits hreports ⊢
    cases hend : s₁.ending? s.correlator.next stage with
    | none =>
      have hnd := (hturn.callers hi.ids_nodup).1
      exact .inl ⟨_, (mem_keep hnd).mpr (.inl rfl), rfl, rfl, _, spec, _, next, rfl,
        Nat.le_refl _, .refl _⟩
    | some r =>
      obtain ⟨rfl, o, ho, rfl⟩ := ending?_eq_some_iff.mp hend
      have hi₁ := hi.of_spares hturn (hfits.settled rfl).disarmed
      have hrest := spares_pursue hi₁ label (next o.resolution)
      have hfell : s.Fell (s₁.pursue k label (next o.resolution)) spec o.resolution := by
        rcases hturn.outcome?_cases ho with hold | ⟨seen, hlost⟩
        · rw [outcome?_next hi.sound] at hold
          cases hold
        · exact ⟨s.correlator.next, _, Nat.le_refl _,
            resolution?_eq_some_iff.mpr ⟨o, hrest.outcome?_mono ho, rfl⟩, hlost⟩
      have hle := hturn.next_le
      rcases ih o.resolution hi₁ with
        ⟨c, hc, hid, hlabel, ex, spec', m, next', hg, hex, hleads⟩ | ⟨r, m, hleaves, hleads⟩
      · exact .inl ⟨c, hc, hid, hlabel, ex, spec', m, next', hg, Nat.le_trans hle hex,
          .step hfell (hleads.mono fun _ _ => .of_le hle)⟩
      · exact .inr ⟨r, m, hleaves.of_reports_eq hreports,
          .step hfell (hleads.mono fun _ _ => .of_le hle)⟩

/-- In a run of events an exchange was registered and has ended; if it was answered, then by a
message that its matcher accepts, in an event before which it was open and its caller `k` there.
-/
structure Ran (s : Switchboard α ρ) (events : List (Event α ρ)) (k ex : Nat) (spec : Spec α)
    (r : Resolution α) : Prop where
  new : s.correlator.next ≤ ex
  ended : (s.after events).resolution? ex = some r
  read : ∀ m, r = .matched m → spec.matcher.accepts m.raw ∧ m.value = spec.matcher.answer m.raw
  answered : ∀ m, r = .matched m → ∃ before e later, events = before ++ e :: later ∧
    ex ∈ (s.after before).correlator.pendingIds ∧
    ((s.after before).occur e).resolution? ex = some r ∧
    ∃ c ∈ (s.after before).callers, c.id = k ∧ c.goal.errand? = some (ex, spec)

/-- An exchange that has run stays so. -/
theorem Ran.snoc {s : Switchboard α ρ} (h : s.Orderly) {events : List (Event α ρ)} {k ex : Nat}
    {spec : Spec α} {r : Resolution α} (hr : s.Ran events k ex spec r) (e : Event α ρ) :
    s.Ran (events ++ [e]) k ex spec r where
  new := hr.new
  ended := by
    obtain ⟨o, ho, rfl⟩ := resolution?_eq_some_iff.mp hr.ended
    rw [s.after_append]
    exact resolution?_eq_some_iff.mpr ⟨o, ((h.after events).evolves [e]).outcome?_mono ho, rfl⟩
  read := hr.read
  answered m hm := by
    obtain ⟨before, e', later, rfl, hrest⟩ := hr.answered m hm
    exact ⟨before, e', later ++ [e], by simp, hrest⟩

/-- An exchange that has ended by the turn of its caller has run. -/
theorem ran_of_outcome {s : Switchboard α ρ} (h : s.Orderly) {events : List (Event α ρ)}
    {e : Event α ρ} {c : Caller α ρ} (hc : c ∈ (s.after events).callers) {ex : Nat}
    {spec : Spec α} (he : c.goal.errand? = some (ex, spec)) (hnew : s.correlator.next ≤ ex)
    {o : Outcome α} (ho : (s.after (events ++ [e])).correlator.outcome? ex = some o)
    (hread : ∀ m, o.resolution = .matched m →
      spec.matcher.accepts m.raw ∧ m.value = spec.matcher.answer m.raw) :
    s.Ran (events ++ [e]) c.id ex spec o.resolution where
  new := hnew
  ended := resolution?_eq_some_iff.mpr ⟨o, ho, rfl⟩
  read := hread
  answered m hm := by
    obtain ⟨before, e', later, heq, hp, ho'⟩ := decided_in_run h hnew ho hm
    have hne : before ≠ events ++ [e] := by
      intro hbefore
      simp [hbefore] at heq
    obtain ⟨rest, rfl⟩ := (List.prefix_concat_iff.mp ⟨_, heq.symm⟩).resolve_left hne
    have hu := h.after before
    rw [s.after_append] at hc
    obtain ⟨b, hb, hbc⟩ := (hu.evolves rest).back c hc ex (exchange?_of_errand? he)
      (hu.sound.lt_of_pending hp)
    exact ⟨before, e', later, heq, hp, resolution?_eq_some_iff.mpr ⟨o, ho', rfl⟩, b, hb,
      hbc.id_eq, hbc.goal_eq ▸ he⟩

/-- The exchanges of the caller `k` that ended in a run of events. -/
def endsIn (s : Switchboard α ρ) (events : List (Event α ρ)) (k : Nat) (spec : Spec α)
    (r : Resolution α) : Prop :=
  ∃ ex, s.Ran events k ex spec r

/-- An exchange that was registered and has failed by the end of a run has ended in it. -/
theorem Fell.endsIn {s s₁ : Switchboard α ρ} {events : List (Event α ρ)}
    (hle : s.correlator.next ≤ s₁.correlator.next) (k : Nat) {spec : Spec α} {r : Resolution α}
    (h : s₁.Fell (s.after events) spec r) : s.endsIn events k spec r := by
  obtain ⟨ex, f, hex, hres, rfl⟩ := h
  exact ⟨ex, Nat.le_trans hle hex, hres, fun m hm => (by cases hm), fun m hm => by cases hm⟩

/-- One more event takes a caller on along the exchanges that end in it. -/
theorem GotOn.snoc {s : Switchboard α ρ} (h : s.Orderly) {events : List (Event α ρ)} {k : Nat}
    {label : String} {n : Nat} {plan : Plan α ρ n}
    (hon : GotOn (s.endsIn events k) (s.Told events k label) s (s.after events) k label plan)
    (e : Event α ρ) :
    GotOn (s.endsIn (events ++ [e]) k) (s.Told (events ++ [e]) k label) s
      (s.after (events ++ [e])) k label plan := by
  have hafter : s.after (events ++ [e]) = (s.after events).occur e := s.after_append events [e]
  have hsnoc : ∀ spec r, s.endsIn events k spec r → s.endsIn (events ++ [e]) k spec r :=
    fun spec r ⟨ex, hran⟩ => ⟨ex, hran.snoc h e⟩
  rcases hon with
    ⟨c, hc, rfl, rfl, ex, spec, m, next, hg, hle, hleads⟩ | ⟨r, m, htold, hleads⟩
  · rcases occur_caller (h.after events) e hc hg with
      ⟨d, hd, hcd, -⟩ | ⟨s₁, o, hi, hk, hreports, ho, heq⟩
    · rw [hafter]
      exact .inl ⟨d, hd, hcd.id_eq.symm, hcd.label_eq.symm, ex, spec, m, next,
        hcd.goal_eq ▸ hg, hle, hleads.mono hsnoc⟩
    · rw [← hafter] at heq
      have hran : s.endsIn (events ++ [e]) c.id spec o.resolution := by
        refine ⟨ex, ran_of_outcome h hc (by rw [hg, Goal.errand?]) hle ?_ fun m =>
          hk.answered o m ho⟩
        rw [heq]
        exact (spares_pursue hi c.label (next o.resolution)).outcome?_mono ho
      have hnext : s.correlator.next ≤ s₁.correlator.next :=
        Nat.le_trans hle (Nat.le_of_lt (hi.sound.lt_of_outcome? ho))
      have hhere := (hleads.mono hsnoc).snoc hran
      have hturn := gotOn_pursue hi c.label (next o.resolution)
      rw [← heq] at hturn
      rcases hturn with
        ⟨d, hd, hid, hlabel, ex', spec', m', next', hg', hle', hleads'⟩ |
          ⟨r, m', hleaves, hleads'⟩
      · exact .inl ⟨d, hd, hid, hlabel, ex', spec', m', next', hg', Nat.le_trans hnext hle',
          hhere.trans (hleads'.mono fun _ _ hfell => hfell.endsIn hnext c.id)⟩
      · rw [hafter] at hleaves
        exact .inr
          ⟨r, m', ⟨events, e, [], rfl, .inr ⟨c, hc, rfl⟩, hleaves.of_reports_eq hreports⟩,
          hhere.trans (hleads'.mono fun _ _ hfell => hfell.endsIn hnext c.id)⟩
  · exact .inr ⟨r, m, htold.snoc e, hleads.mono hsnoc⟩

/-- At any later time the caller of a plan has come to one of its exchanges, or has reported
what the plan leads to along the ends of its exchanges. -/
theorem gotOn_launch {s : Switchboard α ρ} (h : s.Orderly) (label : String) {n : Nat}
    (plan : Plan α ρ n) (events : List (Event α ρ)) :
    GotOn (s.endsIn (.act (.launch label n plan) :: events) s.next)
      (s.Told (.act (.launch label n plan) :: events) s.next label) s
      (s.after (.act (.launch label n plan) :: events)) s.next label plan := by
  induction events using List.reverseRecOn with
  | nil =>
    have hfell : ∀ spec r, s.enlist.Fell (s.enlist.pursue s.next label plan) spec r →
        s.endsIn [.act (.launch label n plan)] s.next spec r :=
      fun _ _ hf => Fell.endsIn (Nat.le_refl _) s.next hf
    rcases gotOn_pursue (idle_enlist h) label plan with
      ⟨c, hc, hid, hlabel, ex, spec, m, next, hg, hle, hleads⟩ | ⟨r, m, hleaves, hleads⟩
    · exact .inl ⟨c, hc, hid, hlabel, ex, spec, m, next, hg, hle, hleads.mono hfell⟩
    · exact .inr ⟨r, m, ⟨[], _, [], rfl, .inl rfl, hleaves.of_reports_eq rfl⟩,
        hleads.mono hfell⟩
  | append_singleton events e ih => exact ih.snoc h e

end Switchboard

end VenueLink

import VenueLink.Proofs.Switchboard.Standing

/-!
# Order among the callers

A switchboard is `Orderly` when every caller stands to its exchange as it should, no two callers
share an exchange, and no timer is late. A caller whose turn it is may stand otherwise until the
turn is over, so `OrderlyBut` leaves one caller out.

## Main results

* `OrderlyBut.land`: a turn at whose end the caller stands as it should leaves everything in
  order.
* `OrderlyBut.aside`, `OrderlyBut.close`: so does what leaves the callers alone, and the end of
  exchanges.
* `spares_tend`, `lands_tend`: the turn of a caller is such a turn.
-/

namespace VenueLink

open Exchange Correlator

variable {α ρ : Type}

/-- The caller `d` is `c` a while later, still after the same goal. -/
structure Caller.Continues (c d : Caller α ρ) : Prop where
  id_eq : c.id = d.id
  label_eq : c.label = d.label
  goal_eq : c.goal = d.goal
  waiting : c.stage = .waiting → d.stage = .waiting

/-- A caller goes on with what it is at. -/
theorem Caller.Continues.refl (c : Caller α ρ) : c.Continues c :=
  ⟨rfl, rfl, rfl, fun h => h⟩

/-- And goes on from there. -/
theorem Caller.Continues.trans {b c d : Caller α ρ} (h₁ : b.Continues c) (h₂ : c.Continues d) :
    b.Continues d :=
  ⟨h₁.id_eq.trans h₂.id_eq, h₁.label_eq.trans h₂.label_eq, h₁.goal_eq.trans h₂.goal_eq,
    fun h => h₂.waiting (h₁.waiting h)⟩

/-- The caller `d` is `c` a while later, and it has not had a turn. -/
structure Caller.Rests (c d : Caller α ρ) : Prop extends c.Continues d where
  underway : d.stage = .waiting → c.stage = .waiting

/-- A caller rests as it is. -/
theorem Caller.Rests.refl (c : Caller α ρ) : c.Rests c :=
  ⟨.refl c, fun h => h⟩

/-- And rests on from there. -/
theorem Caller.Rests.trans {b c d : Caller α ρ} (h₁ : b.Rests c) (h₂ : c.Rests d) : b.Rests d :=
  ⟨h₁.toContinues.trans h₂.toContinues, fun h => h₁.underway (h₂.underway h)⟩

namespace Switchboard

/-- Everything is in order, except that the caller in `hand` may stand to its exchange in any
way. -/
structure OrderlyBut (s : Switchboard α ρ) (hand : Option Nat) : Prop where
  sound : s.correlator.Sound
  ids_nodup : (s.callers.map Caller.id).Nodup
  ids_lt : ∀ c ∈ s.callers, c.id < s.next
  apart : ∀ c ∈ s.callers, ∀ d ∈ s.callers, ∀ ex, c.goal.exchange? = some ex →
    d.goal.exchange? = some ex → c.id = d.id
  requests_lt : ∀ id ∈ s.requests, id < s.correlator.next
  expire_lt : ∀ id, .expire id ∈ s.ready → id < s.correlator.next
  yielded_lapsed : ∀ id ∈ s.yielded, s.Lapsed id
  timers_due : ∀ t ∈ s.timers, s.now < t.due
  timers_lt : ∀ t ∈ s.timers, ∀ k, t.alarm = .giveUp k → k < s.next
  fits : ∀ c ∈ s.callers, some c.id ≠ hand → ∀ ex spec, c.goal.errand? = some (ex, spec) →
    s.Fits c ex spec

/-- Everything is in order. -/
def Orderly (s : Switchboard α ρ) : Prop :=
  s.OrderlyBut none

/-- At the start nobody is there. -/
theorem orderly_start (cap : Nat) (manual : Bool) :
    (start cap manual : Switchboard α ρ).Orderly where
  sound := sound_start cap
  ids_nodup := List.nodup_nil
  ids_lt _ h := absurd h List.not_mem_nil
  apart _ h := absurd h List.not_mem_nil
  requests_lt _ h := absurd h List.not_mem_nil
  expire_lt _ h := absurd h List.not_mem_nil
  yielded_lapsed _ h := absurd h List.not_mem_nil
  timers_due _ h := absurd h List.not_mem_nil
  timers_lt _ h := absurd h List.not_mem_nil
  fits _ h := absurd h List.not_mem_nil

/-- Every caller at an exchange fits what is known of that. -/
theorem Orderly.fits {s : Switchboard α ρ} (h : s.Orderly) {c : Caller α ρ} (hc : c ∈ s.callers)
    {ex : Nat} {spec : Spec α} (he : c.goal.errand? = some (ex, spec)) : s.Fits c ex spec :=
  OrderlyBut.fits h c hc (by simp) ex spec he

/-! ### A turn -/

/-- The caller `k` has come by its turn to where it should be: it is gone, or it asks for a
connection only, or it stands to its exchange as it should. The exchange is a new one, or the
one that it had. -/
def Lands (k : Nat) (s s' : Switchboard α ρ) : Prop :=
  ∀ d ∈ s'.callers, d.id = k → ∀ ex spec, d.goal.errand? = some (ex, spec) →
    s'.Fits d ex spec ∧ (s.correlator.next ≤ ex ∨ ∃ c ∈ s.callers, c.Continues d)

/-- Whoever has an errand is at its exchange. -/
theorem exchange?_of_errand? {c : Caller α ρ} {ex : Nat} {spec : Spec α}
    (h : c.goal.errand? = some (ex, spec)) : c.goal.exchange? = some ex :=
  Goal.exchange?_eq_some_iff.mpr ⟨spec, h⟩

section Land

variable {s s' : Switchboard α ρ} {k : Nat} {sent : List Nat} (h : s.OrderlyBut (some k))
  (hturn : Spares k sent s s')
include h hturn

/-- The turn of one caller finds the others as they are. -/
theorem OrderlyBut.fits_of_ne {c : Caller α ρ} (hc : c ∈ s'.callers) (hne : c.id ≠ k) {ex : Nat}
    {spec : Spec α} (he : c.goal.errand? = some (ex, spec)) :
    c ∈ s.callers ∧ s.Fits c ex spec := by
  have hold := ((hturn.callers h.ids_nodup).2 c hne).mp hc
  exact ⟨hold, h.fits c hold (by simpa using hne) ex spec he⟩

/-- The exchange that a caller has come to in its turn is nobody else's. -/
theorem OrderlyBut.apart_of_turn (hland : Lands k s s') {c d : Caller α ρ} (hc : c ∈ s'.callers)
    (hd : d ∈ s'.callers) {ex : Nat} (hce : c.goal.exchange? = some ex)
    (hde : d.goal.exchange? = some ex) (hck : c.id = k) : d.id = k := by
  by_contra hne
  obtain ⟨spec, hde⟩ := Goal.exchange?_eq_some_iff.mp hde
  obtain ⟨hold, hfits⟩ := h.fits_of_ne hturn hd hne hde
  obtain ⟨spec', hce'⟩ := Goal.exchange?_eq_some_iff.mp hce
  rcases (hland c hc hck ex spec' hce').2 with hnew | ⟨b, hb, hbc⟩
  · exact absurd hfits.known.registered (Nat.not_lt.mpr hnew)
  · have hbe : b.goal.exchange? = some ex := hbc.goal_eq ▸ hce
    have hbd := h.apart b hb d hold ex hbe (exchange?_of_errand? hde)
    rw [hbc.id_eq, hck] at hbd
    exact hne hbd.symm

/-- A turn at whose end the caller stands as it should leaves everything in order. -/
theorem OrderlyBut.land (hk : k < s.next)
    (hsent : ∀ ex ∈ sent, ∃ c ∈ s.callers, c.id = k ∧ c.goal.exchange? = some ex)
    (hland : Lands k s s') : s'.Orderly := by
  obtain ⟨hnd, hcallers⟩ := hturn.callers h.ids_nodup
  refine ⟨hturn.sound h.sound, hnd, fun c hc => ?_, fun c hc d hd ex hce hde => ?_,
    hturn.requests_lt h.requests_lt, hturn.expire_lt h.expire_lt,
    fun id hid => hturn.lapsed (h.yielded_lapsed id (hturn.yielded_eq ▸ hid)), fun t ht => ?_,
    fun t ht j hj => ?_, fun c hc _ ex spec he => ?_⟩
  · rw [hturn.next_eq]
    by_cases hck : c.id = k
    · exact hck ▸ hk
    · exact h.ids_lt c ((hcallers c hck).mp hc)
  · by_cases hck : c.id = k
    · exact hck.trans (h.apart_of_turn hturn hland hc hd hce hde hck).symm
    · by_cases hdk : d.id = k
      · exact absurd (h.apart_of_turn hturn hland hd hc hde hce hdk) hck
      · exact h.apart c ((hcallers c hck).mp hc) d ((hcallers d hdk).mp hd) ex hce hde
  · rw [hturn.now_eq]
    rcases hturn.timers_new t ht with hold | ⟨hlt, -⟩
    · exact h.timers_due t hold
    · exact hlt
  · rw [hturn.next_eq]
    rcases hturn.timers_new t ht with hold | ⟨-, heq⟩
    · exact h.timers_lt t hold j hj
    · exact heq j hj ▸ hk
  · by_cases hck : c.id = k
    · exact (hland c hc hck ex spec he).1
    · obtain ⟨hold, hfits⟩ := h.fits_of_ne hturn hc hck he
      refine hturn.fits hck (fun hmem => ?_) hfits
      obtain ⟨b, hb, hbk, hbe⟩ := hsent ex hmem
      exact hck ((h.apart b hb c hold ex hbe (exchange?_of_errand? he)).symm.trans hbk)

end Land

/-! ### What becomes of a caller by its turn -/

/-- What is in order is so but for any caller. -/
theorem orderlyBut_of_orderly {s : Switchboard α ρ} (h : s.Orderly) (hand : Option Nat) :
    s.OrderlyBut hand where
  __ := h
  fits c hc _ := OrderlyBut.fits h c hc (by simp)

/-- Whoever has no timer may start on something. -/
theorem OrderlyBut.idle {s : Switchboard α ρ} {hand : Option Nat} (h : s.OrderlyBut hand)
    {k : Nat} (hd : ∀ t ∈ s.timers, t.alarm ≠ .giveUp k) : s.Idle k :=
  ⟨h.sound, h.requests_lt, h.expire_lt, h.ids_nodup, hd⟩

/-- So it may after a turn that leaves it none. -/
theorem OrderlyBut.idle_of_turn {s s' : Switchboard α ρ} {hand : Option Nat}
    (h : s.OrderlyBut hand) {k : Nat} {sent : List Nat} (hturn : Spares k sent s s')
    (hd : ∀ t ∈ s'.timers, t.alarm ≠ .giveUp k) : s'.Idle k :=
  ⟨hturn.sound h.sound, hturn.requests_lt h.requests_lt, hturn.expire_lt h.expire_lt,
    (hturn.callers h.ids_nodup).1, hd⟩

/-- The exchange whose request a caller sends when its turn comes. -/
def sentBy (s : Switchboard α ρ) (c : Caller α ρ) : List Nat :=
  match c.goal.errand? with
  | some (ex, spec) => (s.deliver c.id ex spec c.stage).2.sent ex
  | none => []

/-- A caller sends the request of its own exchange only. -/
theorem mem_sentBy {s : Switchboard α ρ} {c : Caller α ρ} {ex : Nat} (h : ex ∈ s.sentBy c) :
    c.goal.exchange? = some ex := by
  rw [sentBy] at h
  cases he : c.goal.errand? with
  | none =>
    rw [he] at h
    exact absurd h List.not_mem_nil
  | some p =>
    obtain ⟨ex', spec⟩ := p
    simp only [he] at h
    cases hd : (s.deliver c.id ex' spec c.stage).2 with
    | blocked stage => rw [hd] at h; exact absurd h List.not_mem_nil
    | failed e => rw [hd] at h; exact absurd h List.not_mem_nil
    | delivered =>
      rw [hd] at h
      obtain rfl := List.mem_singleton.mp h
      exact exchange?_of_errand? he

/-- What the turn of a caller that wants an open link comes to. -/
theorem tend_readiness (s : Switchboard α ρ) {c : Caller α ρ}
    {tell : Except OperationError Readiness → ρ} (hg : c.goal = .readiness tell) :
    s.tend c =
      match (s.access c.stage).2 with
      | .blocked stage => (s.access c.stage).1.keep { c with stage := stage }
      | .granted readiness => (s.access c.stage).1.finish c.id c.label (tell (.ok readiness))
      | .refused e => (s.access c.stage).1.finish c.id c.label (tell (.error e)) := by
  rw [tend, hg]
  dsimp only
  generalize s.access c.stage = p
  obtain ⟨s₁, access⟩ := p
  cases access <;> rfl

/-- A caller whose turn it is moves no other caller. -/
theorem spares_tend {s : Switchboard α ρ} {c : Caller α ρ} (h : s.OrderlyBut (some c.id))
    (hp : ∀ ex spec, c.goal.errand? = some (ex, spec) → s.Poised c ex spec) :
    Spares c.id (s.sentBy c) s (s.tend c) := by
  cases hg : c.goal with
  | readiness tell =>
    have hsent : s.sentBy c = [] := by rw [sentBy, hg, Goal.errand?]
    rw [tend_readiness s hg, hsent]
    have hturn := (s.aside_access c.stage).spares_nil c.id
    generalize s.access c.stage = p at hturn ⊢
    obtain ⟨s₁, access⟩ := p
    cases access with
    | blocked stage => exact hturn.then_nil (s₁.spares_keep { c with stage := stage })
    | granted readiness => exact hturn.then_nil (s₁.spares_finish c.id c.label _)
    | refused e => exact hturn.then_nil (s₁.spares_finish c.id c.label _)
  | exchange ex spec n next =>
    have he : c.goal.errand? = some (ex, spec) := by rw [hg, Goal.errand?]
    obtain ⟨hturn, hfits, -⟩ := stride_spec h.sound (hp ex spec he)
    have hsent : s.sentBy c = (s.deliver c.id ex spec c.stage).2.sent ex := by rw [sentBy, he]
    rw [tend_exchange s hg, hsent]
    generalize s.stride c ex spec = p at hturn hfits ⊢
    obtain ⟨s₁, stage⟩ := p
    cases hend : s₁.ending? ex stage with
    | none => exact hturn.then_nil (s₁.spares_keep { c with stage := stage })
    | some r =>
      obtain ⟨rfl, -⟩ := ending?_eq_some_iff.mp hend
      exact hturn.then_nil
        (spares_pursue (h.idle_of_turn hturn (hfits.settled rfl).disarmed) c.label _)

/-- A caller whose turn it is comes to where it should be. -/
theorem lands_tend {s : Switchboard α ρ} {c : Caller α ρ} (h : s.OrderlyBut (some c.id))
    (hc : c ∈ s.callers)
    (hp : ∀ ex spec, c.goal.errand? = some (ex, spec) → s.Poised c ex spec) :
    Lands c.id s (s.tend c) := by
  intro d hd hid ex spec he
  cases hg : c.goal with
  | readiness tell =>
    rw [tend_readiness s hg] at hd
    have hnd := (((s.aside_access c.stage).spares_nil c.id).callers h.ids_nodup).1
    generalize s.access c.stage = p at hd hnd
    obtain ⟨s₁, access⟩ := p
    cases access with
    | granted readiness => exact absurd hid (not_mem_finish hd)
    | refused e => exact absurd hid (not_mem_finish hd)
    | blocked stage =>
      rcases (mem_keep hnd).mp hd with rfl | ⟨-, hne⟩
      · simp [hg, Goal.errand?] at he
      · exact absurd hid hne
  | exchange ex₀ spec₀ n next =>
    have he₀ : c.goal.errand? = some (ex₀, spec₀) := by rw [hg, Goal.errand?]
    obtain ⟨hturn, hfits, hwait⟩ := stride_spec h.sound (hp ex₀ spec₀ he₀)
    rw [tend_exchange s hg] at hd ⊢
    generalize s.stride c ex₀ spec₀ = p at hturn hfits hwait hd ⊢
    obtain ⟨s₁, stage⟩ := p
    have hnd := (hturn.callers h.ids_nodup).1
    cases hend : s₁.ending? ex₀ stage with
    | none =>
      simp only [hend] at hd
      rcases (mem_keep hnd).mp hd with rfl | ⟨-, hne⟩
      · simp only [he₀, Option.some.injEq, Prod.mk.injEq] at he
        obtain ⟨rfl, rfl⟩ := he
        exact ⟨hfits.keep _, .inr ⟨c, hc, rfl, rfl, rfl, hwait⟩⟩
      · exact absurd hid hne
    | some r =>
      simp only [hend] at hd
      obtain ⟨rfl, -⟩ := ending?_eq_some_iff.mp hend
      have hi := h.idle_of_turn hturn (hfits.settled rfl).disarmed
      obtain ⟨hf, hle⟩ := fits_pursue hi hd hid he
      exact ⟨hf, .inl (Nat.le_trans hturn.next_le hle)⟩

/-! ### What happens to all callers -/

/-- Whatever leaves the callers alone leaves everything in order. -/
theorem OrderlyBut.aside {s s' : Switchboard α ρ} {hand : Option Nat} (h : s.OrderlyBut hand)
    (ha : s.Aside [] s') : s'.OrderlyBut hand where
  sound := ha.correlator_eq ▸ h.sound
  ids_nodup := ha.callers_eq ▸ h.ids_nodup
  ids_lt := by
    rw [ha.callers_eq, ha.next_eq]
    exact h.ids_lt
  apart := ha.callers_eq ▸ h.apart
  requests_lt := (ha.spares_nil s.next).requests_lt h.requests_lt
  expire_lt := (ha.spares_nil s.next).expire_lt h.expire_lt
  yielded_lapsed id hid :=
    (ha.spares_nil s.next).lapsed (h.yielded_lapsed id (ha.yielded_eq ▸ hid))
  timers_due t ht := by
    rw [ha.now_eq]
    rcases (ha.spares_nil s.next).timers_new t ht with hold | ⟨hlt, -⟩
    · exact h.timers_due t hold
    · exact hlt
  timers_lt t ht k hk := by
    obtain ⟨more, heq, hmore⟩ := ha.timers
    rw [heq] at ht
    rw [ha.next_eq]
    rcases List.mem_append.mp ht with hold | hnew
    · exact h.timers_lt t hold k hk
    · exact absurd hk ((hmore t hnew).2 k)
  fits c hc hne ex spec he := by
    rw [ha.callers_eq] at hc
    -- nobody has the id that the next caller will get, so its turn is nobody's
    exact (ha.spares_nil s.next).fits (Nat.ne_of_lt (h.ids_lt c hc)) List.not_mem_nil
      (h.fits c hc hne ex spec he)

/-- Exchanges that end as their matchers say leave an exchange known. -/
theorem Known.of_ends {s : Switchboard α ρ} {ex : Nat} {spec : Spec α} (h : s.Known ex spec)
    {ended : List (Outcome α)} {c' : Correlator α} (hends : s.correlator.Ends ended c')
    (hmatched : ∀ o ∈ ended, ∀ m, o.resolution = .matched m → ∃ e ∈ s.correlator.entries,
      e.id = o.id ∧ e.matcher.accepts m.raw ∧ m.value = e.matcher.answer m.raw) :
    ({ s with correlator := c' } : Switchboard α ρ).Known ex spec := by
  refine ⟨?_, fun e he hid => ?_, fun o m ho hm => ?_⟩
  · rw [hends.next_eq]
    exact h.registered
  · obtain ⟨d, hd, hterms⟩ := hends.terms_mem he
    obtain ⟨hdid, hdm, -⟩ : d.id = e.id ∧ d.matcher = e.matcher ∧ d.deadline = e.deadline := by
      simpa [Entry.terms] using hterms
    exact hdm ▸ h.matcher d hd (hdid.trans hid)
  · rcases hends.outcome?_cases ho with hold | ⟨-, hnew, hid⟩
    · exact h.answered o m hold hm
    · obtain ⟨e, he, heid, hacc, hval⟩ := hmatched o hnew m hm
      rw [h.matcher e he (heid.trans hid)] at hacc hval
      exact ⟨hacc, hval⟩

/-- A deadline stays when exchanges end. -/
theorem Lapsed.of_ends {s : Switchboard α ρ} {ex : Nat} (h : s.Lapsed ex)
    {ended : List (Outcome α)} {c' : Correlator α} (hends : s.correlator.Ends ended c') :
    ({ s with correlator := c' } : Switchboard α ρ).Lapsed ex := by
  obtain ⟨deadline, hd, hle⟩ := h
  refine ⟨deadline, ?_, hle⟩
  rwa [Correlator.deadline?, hends.deadlines_eq]

/-- Exchanges end: those that were answered by a message that their matcher accepts, and those
that run into their deadline while nobody is underway for them. -/
theorem OrderlyBut.close {s : Switchboard α ρ} {hand : Option Nat} (h : s.OrderlyBut hand)
    {ended : List (Outcome α)} {c' : Correlator α} (hends : s.correlator.Ends ended c')
    (hmatched : ∀ o ∈ ended, ∀ m, o.resolution = .matched m → ∃ e ∈ s.correlator.entries,
      e.id = o.id ∧ e.matcher.accepts m.raw ∧ m.value = e.matcher.answer m.raw)
    (htimed : ∀ o ∈ ended, ∀ seen, o.resolution = .failed ⟨.timeout, seen⟩ →
      ∀ c ∈ s.callers, c.goal.exchange? = some o.id → c.stage = .waiting) :
    ({ s with correlator := c' } : Switchboard α ρ).OrderlyBut hand where
  sound := h.sound.of_ends hends
  ids_nodup := h.ids_nodup
  ids_lt := h.ids_lt
  apart := h.apart
  requests_lt id hid := by
    rw [hends.next_eq]
    exact h.requests_lt id hid
  expire_lt id hid := by
    rw [hends.next_eq]
    exact h.expire_lt id hid
  yielded_lapsed id hid := (h.yielded_lapsed id hid).of_ends hends
  timers_due := h.timers_due
  timers_lt := h.timers_lt
  fits c hc hne ex spec he := by
    have hf := h.fits c hc hne ex spec he
    refine ⟨hf.known.of_ends hends hmatched, fun hstage => ?_, fun hstage => ?_⟩
    · obtain ⟨hu, hg⟩ := hf.underway hstage
      refine ⟨⟨hu.unsent, hu.unexpired, fun o ho seen hseen => ?_, fun hlate => ?_,
        fun t ht ha => ?_⟩, hg⟩
      · rcases hends.outcome?_cases ho with hold | ⟨-, hnew, hid⟩
        · exact hu.untimed o hold seen hseen
        · exact hstage (htimed o hnew seen hseen c hc (hid ▸ exchange?_of_errand? he))
      · exact (hu.lapsed hlate).of_ends hends
      · rw [Correlator.deadline?, hends.deadlines_eq]
        exact hu.due t ht ha
    · obtain ⟨hdisarmed, hsent⟩ := hf.settled hstage
      refine ⟨hdisarmed, fun hp => ?_⟩
      rcases hsent (hends.mem_pending hp) with hs | hn | hl
      · exact .inl hs
      · exact .inr (.inl hn)
      · exact .inr (.inr (hl.of_ends hends))

end Switchboard

end VenueLink

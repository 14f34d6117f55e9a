import VenueLink.Proofs.Switchboard.Alarm
import VenueLink.Proofs.Switchboard.Attuned

/-!
# The connection between the turns

Between the turns of the callers an attempt to connect is some caller's, which sits out a pause.
The connection is `InTune` if no two callers are making attempts and each that does will go on.

## Main results

* `InTuneBut.turn`: the turn of a caller leaves the connection in tune.
* `InTune.hangUp`, `inTune_announce`, `InTune.deliver`, `inTune_tick`: so do the wire, its
  signals and the clock.
-/

namespace VenueLink.Switchboard

open Exchange

variable {α ρ : Type}

/-! ### In tune -/

/-- Somebody who is not in `hand` is making the attempt of a generation. -/
def AttemptBut (s : Switchboard α ρ) (hand : Option Nat) (g : Nat) : Prop :=
  ∃ d ∈ s.callers, some d.id ≠ hand ∧ d.stage.attempt? = some g

/-- The connection is in tune, and the caller in `hand` may be anywhere in its turn, in which it
is making the attempt `a`: no two callers are making attempts, and all others that do will go
on. -/
structure InTuneBut (hand a : Option Nat) (s : Switchboard α ρ) : Prop where
  attuned : Attuned (s.AttemptBut hand) a s
  alone : ∀ c ∈ s.callers, ∀ d ∈ s.callers, some c.id ≠ hand → some d.id ≠ hand →
    c.stage.attempt? ≠ none → d.stage.attempt? ≠ none → c.id = d.id
  attended : ∀ c ∈ s.callers, some c.id ≠ hand → s.Attended c.id c.stage

/-- The connection is in tune between the turns of the callers. -/
def InTune (s : Switchboard α ρ) : Prop :=
  InTuneBut none none s

/-- Nobody is connecting while the connection is open. -/
theorem InTune.attempt?_eq_none {s : Switchboard α ρ} (h : s.InTune) (hlink : s.link.isOpen)
    {c : Caller α ρ} (hc : c ∈ s.callers) : c.stage.attempt? = none := by
  refine Option.eq_none_iff_forall_ne_some.mpr fun g hattempt => ?_
  have hconnecting := (h.attuned.attempt g (.inr ⟨c, hc, by simp, hattempt⟩)).2.1
  rw [phase_of_isOpen hlink] at hconnecting
  cases hconnecting

/-- At the start there is no connection to be in tune with. -/
theorem inTune_start (cap : Nat) (manual : Bool) :
    (start cap manual : Switchboard α ρ).InTune where
  attuned :=
    { connects_eq := rfl
      connection_le := fun _ h => by cases h
      outstanding_le := fun _ h => by simp [Outstanding, start] at h
      opened := fun h => by cases h
      attempt := fun _ h => by simp [AttemptBut, start] at h
      single := fun h => absurd rfl h
      connecting := fun h => by cases h }
  alone _ h := absurd h List.not_mem_nil
  attended _ h := absurd h List.not_mem_nil

/-- From `s` to `s'` the callers stay as they are, and none is held up, except for the one in
`hand`. -/
structure Wakes (hand : Option Nat) (s s' : Switchboard α ρ) : Prop where
  callers_eq : s'.callers = s.callers
  timers : ∀ t ∈ s.timers, ∀ k, t.alarm = .ripen k → t ∈ s'.timers
  ready : ∀ k, some k ≠ hand → .caller k ∈ s.ready → .caller k ∈ s'.ready

/-- Two stretches in which nobody is held up. -/
theorem Wakes.trans {hand : Option Nat} {s₁ s₂ s₃ : Switchboard α ρ} (h₁ : Wakes hand s₁ s₂)
    (h₂ : Wakes hand s₂ s₃) : Wakes hand s₁ s₃ where
  callers_eq := h₂.callers_eq.trans h₁.callers_eq
  timers t ht k hk := h₂.timers t (h₁.timers t ht k hk) k hk
  ready k hne hk := h₂.ready k hne (h₁.ready k hne hk)

/-- What leaves everything aside holds nobody up. -/
theorem Aside.wakes {s s' : Switchboard α ρ} {new : List Nat} (h : s.Aside new s')
    (hand : Option Nat) : Wakes hand s s' :=
  ⟨h.callers_eq, fun _ ht _ _ => h.mem_timers ht, fun _ _ => h.mem_ready⟩

/-- A change to what callers do not wait for. -/
theorem wakes_of_eq {hand : Option Nat} {s s' : Switchboard α ρ}
    (hcallers : s'.callers = s.callers) (htimers : s'.timers = s.timers)
    (hready : s'.ready = s.ready) : Wakes hand s s' :=
  ⟨hcallers, fun _ ht _ _ => htimers ▸ ht, fun _ _ hk => hready ▸ hk⟩

/-- Those who wait for an exchange are woken. -/
theorem wakes_wakeWaiting (s : Switchboard α ρ) (id : Nat) (hand : Option Nat) :
    Wakes hand s (s.wakeWaiting id) :=
  (s.aside_wakeWhere _).wakes hand

/-- And those who wait for one of several. -/
theorem wakes_foldl_wakeWaiting {hand : Option Nat} {s s₁ : Switchboard α ρ}
    (h : Wakes hand s s₁) (l : List Nat) : Wakes hand s (l.foldl wakeWaiting s₁) :=
  h.trans ((aside_foldl_wakeWaiting l s₁).wakes hand)

/-- All open exchanges fail, and nobody is held up by that. -/
theorem wakes_failAll (s : Switchboard α ρ) (hand : Option Nat) : Wakes hand s s.failAll := by
  refine wakes_foldl_wakeWaiting ?_ _
  exact wakes_of_eq rfl rfl rfl

/-- Handling a signal wakes callers, and does nothing else to them. -/
theorem wakes_handle (s : Switchboard α ρ) (x : Signal) (hand : Option Nat) :
    Wakes hand s (s.handle x) := by
  by_cases hx : x.generation = s.link.generation
  · cases x with
    | message g payload =>
      obtain rfl : g = s.link.generation := hx
      rw [handle_message]
      refine wakes_foldl_wakeWaiting ?_ _
      exact wakes_of_eq rfl rfl rfl
    | opened g =>
      obtain rfl : g = s.link.generation := hx
      rw [handle_opened]
      exact (s.aside_greet.trans_nil ((aside_link _ _).trans_nil (aside_wakeWhere _ _))).wakes
        hand
    | closed g reason =>
      obtain rfl : g = s.link.generation := hx
      rw [handle_closed]
      exact (((s.aside_link _).trans_nil (aside_wakeWhere _ _)).wakes hand).trans
        (wakes_failAll _ hand)
  · rw [handle_of_ne hx]
    exact (Aside.refl s).wakes hand

section InTuneBut

variable {hand a : Option Nat} {s s' : Switchboard α ρ}

/-- The connection stays in tune where nobody is held up. -/
theorem InTuneBut.of_wakes (h : InTuneBut hand a s) (hwakes : Wakes hand s s')
    (ha : Attuned (s.AttemptBut hand) a s') : InTuneBut hand a s' where
  attuned := by
    have hsame : s'.AttemptBut hand = s.AttemptBut hand := by
      funext g
      rw [AttemptBut, hwakes.callers_eq, AttemptBut]
    rwa [hsame]
  alone := hwakes.callers_eq ▸ h.alone
  attended c hc hne :=
    (h.attended c (hwakes.callers_eq ▸ hc) hne).of_subset (fun t ht => hwakes.timers t ht c.id)
      (hwakes.ready c.id hne)

/-- What leaves the connection and the callers alone. -/
theorem InTuneBut.of_calm (h : InTuneBut hand a s) (hcalm : Calm s s')
    (hwakes : Wakes hand s s') : InTuneBut hand a s' :=
  h.of_wakes hwakes (h.attuned.of_calm hcalm)

end InTuneBut

/-! ### The turn of a caller -/

/-- A caller is taken up for its turn. -/
theorem InTune.but {s : Switchboard α ρ} (h : s.InTune) {k : Nat} {a : Option Nat}
    (ha : ∀ c ∈ s.callers, c.id = k → c.stage.attempt? = a)
    (hin : a ≠ none → ∃ c ∈ s.callers, c.id = k) : InTuneBut (some k) a s where
  attuned :=
    { h.attuned with
      attempt := by
        rintro g (rfl | ⟨d, hd, -, hg⟩)
        · obtain ⟨c, hc, hck⟩ := hin (by simp)
          exact h.attuned.attempt g (.inr ⟨c, hc, by simp, ha c hc hck⟩)
        · exact h.attuned.attempt g (.inr ⟨d, hd, by simp, hg⟩)
      single := by
        rintro hne g ⟨d, hd, hdk, hg⟩
        obtain ⟨c, hc, hck⟩ := hin hne
        have hid := h.alone c hc d hd (by simp) (by simp) (by rwa [ha c hc hck]) (by simp [hg])
        exact hdk (by rw [← hid, hck])
      connecting := fun hphase => by
        refine (h.attuned.connecting hphase).imp_left ?_
        rintro (hnone | ⟨d, hd, -, hg⟩)
        · cases hnone
        · by_cases hdk : d.id = k
          · exact .inl ((ha d hd hdk).symm.trans hg)
          · exact .inr ⟨d, hd, by simpa using hdk, hg⟩ }
  alone c hc d hd _ _ := h.alone c hc d hd (by simp) (by simp)
  attended c hc _ := h.attended c hc (by simp)

/-- A turn leaves the connection in tune. -/
theorem InTuneBut.turn {k : Nat} {a : Option Nat} {sent : List Nat} {s s' : Switchboard α ρ}
    (h : InTuneBut (some k) a s) (hnd : (s.callers.map Caller.id).Nodup)
    (hturn : Spares k sent s s') {p : Prop} (hp : p) (hgoes : Goes p k a s s') : s'.InTune := by
  obtain ⟨b, htries, hthere, hlast⟩ := hgoes
  have hattuned := h.attuned.of_tries htries
  obtain ⟨-, hcallers⟩ := hturn.callers hnd
  have hothers : ∀ d ∈ s'.callers, d.id ≠ k → d ∈ s.callers := fun d hd hne =>
    (hcallers d hne).mp hd
  -- whoever is making an attempt after the turn is the caller of the turn, or was making it
  -- before
  have hwho : ∀ d ∈ s'.callers, ∀ g, d.stage.attempt? = some g →
      d.id = k ∧ b = some g ∨ d.id ≠ k ∧ s.AttemptBut (some k) g := by
    intro d hd g hg
    by_cases hdk : d.id = k
    · exact .inl ⟨hdk, (hlast d hd hdk).1.symm.trans hg⟩
    · exact .inr ⟨hdk, d, hothers d hd hdk, by simpa using hdk, hg⟩
  refine ⟨{ hattuned with
    attempt := ?_
    single := fun hne => absurd rfl hne
    connecting := ?_ }, ?_, ?_⟩
  · rintro g (hnone | ⟨d, hd, -, hg⟩)
    · cases hnone
    · exact hattuned.attempt g ((hwho d hd g hg).imp And.right And.right)
  · intro hphase
    refine (hattuned.connecting hphase).imp_left ?_
    rintro (rfl | ⟨d, hd, hdk, hg⟩)
    · obtain ⟨d, hd, hdk⟩ := hthere (by simp)
      exact .inr ⟨d, hd, by simp, (hlast d hd hdk).1⟩
    · exact .inr ⟨d, (hcallers d (by simpa using hdk)).mpr hd, by simp, hg⟩
  · intro c hc d hd _ _ hca hda
    obtain ⟨g, hg⟩ := Option.ne_none_iff_exists'.mp hca
    obtain ⟨g', hg'⟩ := Option.ne_none_iff_exists'.mp hda
    rcases hwho c hc g hg with ⟨hck, hb⟩ | ⟨hck, hin⟩
    · rcases hwho d hd g' hg' with ⟨hdk, -⟩ | ⟨-, hin'⟩
      · exact hck.trans hdk.symm
      · exact absurd hin' (hattuned.single (by simp [hb]) g')
    · rcases hwho d hd g' hg' with ⟨-, hb⟩ | ⟨hdk, -⟩
      · exact absurd hin (hattuned.single (by simp [hb]) g)
      · exact h.alone c (hothers c hc hck) d (hothers d hd hdk) (by simpa using hck)
          (by simpa using hdk) hca hda
  · intro c hc _
    by_cases hck : c.id = k
    · exact hck ▸ (hlast c hc hck).2 hp
    · refine (h.attended c (hothers c hc hck) (by simpa using hck)).of_subset
        (fun t ht ha => hturn.timers_kept t ht ?_) hturn.mem_ready
      rw [ha]
      simpa [Alarm.caller?] using hck

/-! ### The wire -/

/-- Signals of the latest connection are taken in, or such as are still to be told. -/
theorem InTune.hear {s : Switchboard α ρ} (h : s.InTune) {signals : List Signal}
    (hall : ∀ x ∈ signals, s.wire.connection = some x.generation ∨ s.Outstanding x.generation) :
    (s.hear signals).InTune := by
  refine InTuneBut.of_wakes h ((s.aside_hear signals).wakes none) ?_
  refine h.attuned.of_eq (by rw [link_hear]) (by rw [link_hear]) (by rw [wire_hear])
    (by rw [wire_hear]) (fun g hg => ?_) fun hg => hg.hear signals
  rcases outstanding_hear hg with hold | ⟨x, hx, rfl⟩
  · exact .inl hold
  · exact (hall x hx).symm

/-- The wire closes its connection. -/
theorem InTune.hangUp {s : Switchboard α ρ} (h : s.InTune) (reason : String) :
    (({ s with wire := { s.wire with isOpen := false } } : Switchboard α ρ).hear
      (s.wire.connection.toList.map (Signal.closed · reason))).InTune := by
  have hwakes : Wakes none s { s with wire := { s.wire with isOpen := false } } :=
    wakes_of_eq rfl rfl rfl
  have hclosed :
      ({ s with wire := { s.wire with isOpen := false } } : Switchboard α ρ).InTune :=
    InTuneBut.of_wakes h hwakes (h.attuned.of_eq rfl rfl rfl rfl (fun _ hout => .inl hout) id)
  refine hclosed.hear fun x hx => .inl ?_
  obtain ⟨g, hg, rfl⟩ := List.mem_map.mp hx
  exact Option.mem_toList.mp hg

/-- A connection turns out to be open. -/
theorem inTune_announce {s : Switchboard α ρ} (h : s.InTune) {g : Nat} {rest : List Task}
    (hr : s.ready = .announce g :: rest) :
    (({ s with ready := rest } : Switchboard α ρ).hear [.opened g]).InTune := by
  have hmem : ∀ {t}, t ∈ s.ready → t = .announce g ∨ t ∈ rest := fun ht =>
    List.mem_cons.mp (hr ▸ ht)
  have hpop : Wakes none s { s with ready := rest } :=
    ⟨rfl, fun _ ht _ _ => ht, fun k _ hk => (hmem hk).resolve_left (by simp)⟩
  refine InTuneBut.of_wakes h (hpop.trans ((aside_hear _ _).wakes none)) ?_
  refine h.attuned.of_eq (by rw [link_hear]) (by rw [link_hear]) (by rw [wire_hear])
    (by rw [wire_hear]) (fun k hk => .inl ?_) ?_
  · rcases outstanding_hear hk with (hin | hready | htimer) | ⟨x, hx, rfl⟩
    · exact .inl hin
    · exact .inr (.inl (hr ▸ List.mem_cons_of_mem _ hready))
    · exact .inr (.inr htimer)
    · rw [List.mem_singleton.mp hx]
      exact .inr (.inl (hr ▸ List.mem_cons_self))
  · rintro (hin | hready | htimer)
    · exact Awaits.hear (s := { s with ready := rest }) (.inl hin) _
    · rcases hmem hready with heq | hrest
      · cases heq
        refine .inl ?_
        rw [inbox_hear]
        exact List.mem_append_right _ (List.mem_singleton.mpr rfl)
      · exact Awaits.hear (s := { s with ready := rest }) (.inr (.inl hrest)) _
    · exact Awaits.hear (s := { s with ready := rest }) (.inr (.inr htimer)) _

/-- The link hears the first signal of the wire. -/
theorem InTune.deliver {s : Switchboard α ρ} (h : s.InTune) {x : Signal} {rest : List Signal}
    (hin : s.inbox = x :: rest) :
    (({ s with inbox := rest } : Switchboard α ρ).handle x).InTune := by
  have hheard := (h.attuned.of_hear hin).of_calm (calm_handle { s with inbox := rest } x)
  have hpop : Wakes none s { s with inbox := rest } := wakes_of_eq rfl rfl rfl
  exact InTuneBut.of_wakes h (hpop.trans (wakes_handle _ x none)) hheard

/-! ### Time -/

/-- Every caller stays with its attempt, and none is held up. -/
theorem InTune.map {s s' : Switchboard α ρ} (h : s.InTune) {f : Caller α ρ → Caller α ρ}
    (hmap : s'.callers = s.callers.map f) (hcalm : Calm s s')
    (hf : ∀ c, (f c).id = c.id ∧ (f c).stage.attempt? = c.stage.attempt?)
    (hattended : ∀ c ∈ s.callers, s.Attended c.id c.stage → s'.Attended c.id (f c).stage) :
    s'.InTune where
  attuned := by
    have hsame : s'.AttemptBut none = s.AttemptBut none := by
      funext g
      simp [AttemptBut, hmap, (hf _).2]
    rw [hsame]
    exact h.attuned.of_calm hcalm
  alone c hc d hd _ _ hca hda := by
    rw [hmap] at hc hd
    obtain ⟨c₀, hc₀, rfl⟩ := List.mem_map.mp hc
    obtain ⟨d₀, hd₀, rfl⟩ := List.mem_map.mp hd
    rw [(hf c₀).1, (hf d₀).1]
    rw [(hf c₀).2] at hca
    rw [(hf d₀).2] at hda
    exact h.alone c₀ hc₀ d₀ hd₀ (by simp) (by simp) hca hda
  attended c hc _ := by
    rw [hmap] at hc
    obtain ⟨c₀, hc₀, rfl⟩ := List.mem_map.mp hc
    rw [(hf c₀).1]
    exact hattended c₀ hc₀ (h.attended c₀ hc₀ (by simp))

section Alarm

variable {s : Switchboard α ρ} {ts : List Timer} {due : Nat}

/-- The timer of an alarm that is not about the connection has been taken back. -/
theorem calm_drop {a : Alarm} (ha : ∀ g, a ≠ .announce g) :
    Calm ({ s with timers := ⟨due, a⟩ :: ts } : Switchboard α ρ) { s with timers := ts } := by
  refine { Calm.refl s with coming_eq := fun g => ?_ }
  have hno : ¬a = .announce g := ha g
  simp [coming, hno]

/-- The timer of an alarm that ends no pause has been taken back. -/
theorem wakes_drop {a : Alarm} (ha : ∀ k, a ≠ .ripen k) :
    Wakes none ({ s with timers := ⟨due, a⟩ :: ts } : Switchboard α ρ)
      { s with timers := ts } := by
  refine ⟨rfl, fun t ht k hk => (List.mem_cons.mp ht).resolve_left fun heq => ?_,
    fun _ _ hk => hk⟩
  rw [heq] at hk
  exact ha k hk

/-- The timer of an alarm that is not about the connection has been taken back, and a caller
roused. -/
theorem calm_rouse {a : Alarm} (ha : ∀ g, a ≠ .announce g) (k : Nat)
    (f : Caller α ρ → Caller α ρ) :
    Calm ({ s with timers := ⟨due, a⟩ :: ts } : Switchboard α ρ)
      (({ s with timers := ts } : Switchboard α ρ).rouse k f) := by
  have hknown : Calm ({ s with timers := ts } : Switchboard α ρ)
      { s with timers := ts, callers := s.callers.map fun c => if c.id = k then f c else c } :=
    calm_of_eq rfl rfl rfl rfl rfl
  exact ((calm_drop ha).trans hknown).trans (calm_enqueue _ fun _ heq => by cases heq)

/-- A caller that is not roused, or whose stage stays as it is, is attended as before. -/
theorem attended_rouse {a : Alarm} {k j : Nat} {f : Caller α ρ → Caller α ρ} {stage : Stage}
    (ha : a ≠ .ripen j)
    (h : ({ s with timers := ⟨due, a⟩ :: ts } : Switchboard α ρ).Attended j stage) :
    (({ s with timers := ts } : Switchboard α ρ).rouse k f).Attended j stage := by
  refine h.of_subset (fun t ht hripen => ?_) fun hmem => mem_ready_enqueue.mpr (.inl hmem)
  rw [rouse, timers_enqueue]
  refine (List.mem_cons.mp ht).resolve_left fun heq => ha ?_
  rw [heq] at hripen
  exact hripen

/-- A caller learns that its time is up. -/
theorem inTune_giveUp {k : Nat}
    (h : ({ s with timers := ⟨due, .giveUp k⟩ :: ts } : Switchboard α ρ).InTune) :
    (({ s with timers := ts } : Switchboard α ρ).sound (.giveUp k)).InTune := by
  refine h.map rfl (calm_rouse (fun _ heq => by cases heq) k _)
    (fun c => ?_) fun c _ hc => ?_
  · split <;> exact ⟨rfl, rfl⟩
  · have hc' := attended_rouse (k := k) (f := fun c => { c with late := true })
      (fun heq => by cases heq) hc
    dsimp only
    split <;> exact hc'

/-- The pause of a caller is over, and the caller is ready. -/
theorem inTune_ripen {k : Nat}
    (h : ({ s with timers := ⟨due, .ripen k⟩ :: ts } : Switchboard α ρ).InTune) :
    (({ s with timers := ts } : Switchboard α ρ).sound (.ripen k)).InTune := by
  refine h.map rfl (calm_rouse (fun _ heq => by cases heq) k _)
    (fun c => ?_) fun c _ hc => ?_
  · split
    · refine ⟨rfl, ?_⟩
      cases hstage : c.stage <;> simp [hstage, ripened, Stage.attempt?]
    · exact ⟨rfl, rfl⟩
  · dsimp only
    split
    · next hck =>
      cases hstage : c.stage with
      | connecting g ripe => exact hck ▸ mem_ready_enqueue.mpr (.inr rfl)
      | opening => trivial
      | settling ripe => trivial
      | waiting => trivial
    · next hck =>
      exact attended_rouse (fun heq => hck (Alarm.ripen.inj heq).symm) hc

/-- A connection has taken its time to open. -/
theorem inTune_sound_announce {g : Nat}
    (h : ({ s with timers := ⟨due, .announce g⟩ :: ts } : Switchboard α ρ).InTune) :
    (({ s with timers := ts } : Switchboard α ρ).sound (.announce g)).InTune := by
  have haside := aside_enqueue ({ s with timers := ts } : Switchboard α ρ) (t := .announce g)
    fun _ heq => by cases heq
  refine InTuneBut.of_wakes h ((wakes_drop fun _ heq => by cases heq).trans (haside.wakes none))
    ?_
  refine h.attuned.of_eq (congrArg Link.phase (link_enqueue _ _))
    (congrArg Link.generation (link_enqueue _ _)) (congrArg Wire.connection (wire_enqueue _ _))
    (congrArg Wire.connects (wire_enqueue _ _)) (fun k hk => .inl ?_) fun hk => ?_
  · rcases outstanding_enqueue hk with (hin | hready | ⟨t, ht, ha⟩) | rfl
    · exact .inl hin
    · exact .inr (.inl hready)
    · exact .inr (.inr ⟨t, List.mem_cons_of_mem _ ht, ha⟩)
    · exact .inr (.inr ⟨_, List.mem_cons_self, rfl⟩)
  · rcases hk with hin | hready | ⟨t, ht, ha⟩
    · exact Awaits.enqueue (s := { s with timers := ts }) (.inl hin) _
    · exact Awaits.enqueue (s := { s with timers := ts }) (.inr (.inl hready)) _
    · rcases List.mem_cons.mp ht with rfl | hrest
      · rw [← Alarm.announce.inj ha]
        exact .inr (.inl (mem_ready_enqueue.mpr (.inr rfl)))
      · exact Awaits.enqueue (s := { s with timers := ts }) (.inr (.inr ⟨t, hrest, ha⟩)) _

/-- The watch over an exchange has slept. -/
theorem inTune_sound_watch {id : Nat}
    (h : ({ s with timers := ⟨due, .watch id⟩ :: ts } : Switchboard α ρ).InTune) :
    (({ s with timers := ts } : Switchboard α ρ).sound (.watch id)).InTune :=
  InTuneBut.of_calm h
    ((calm_drop fun _ heq => by cases heq).trans (calm_enqueue _ fun _ heq => by cases heq))
    ((wakes_drop fun _ heq => by cases heq).trans ((aside_watch _ id).wakes none))

/-- A timer runs out. -/
theorem inTune_sound {a : Alarm}
    (h : ({ s with timers := ⟨due, a⟩ :: ts } : Switchboard α ρ).InTune) :
    (({ s with timers := ts } : Switchboard α ρ).sound a).InTune := by
  cases a with
  | giveUp k => exact inTune_giveUp h
  | ripen k => exact inTune_ripen h
  | announce g => exact inTune_sound_announce h
  | watch id => exact inTune_sound_watch h

/-- When a timer runs out nothing more is to be told than before. -/
theorem heralds_sound_le (a : Alarm) (g : Nat) :
    (({ s with timers := ts } : Switchboard α ρ).sound a).heralds g ≤
      ({ s with timers := ⟨due, a⟩ :: ts } : Switchboard α ρ).heralds g := by
  cases a with
  | giveUp k => exact Nat.le_of_eq ((calm_rouse (fun _ heq => by cases heq) k _).heralds_eq g)
  | ripen k => exact Nat.le_of_eq ((calm_rouse (fun _ heq => by cases heq) k _).heralds_eq g)
  | watch id =>
    refine Nat.le_of_eq (Calm.heralds_eq ?_ g)
    exact (calm_drop fun _ heq => by cases heq).trans (calm_enqueue _ fun _ heq => by cases heq)
  | announce j =>
    have hready :
        (({ s with timers := ts } : Switchboard α ρ).enqueue (.announce j)).ready.count
        (.announce g) ≤ s.ready.count (.announce g) +
          [Task.announce j].count (.announce g) := by
      rw [enqueue]
      dsimp only
      split
      · exact Nat.le_add_right _ _
      · exact Nat.le_of_eq List.count_append
    have htask : [Task.announce j].count (.announce g) =
        [(⟨due, .announce j⟩ : Timer)].countP (·.alarm = .announce g) := by
      by_cases hj : j = g <;> simp [hj]
    rw [heralds, heralds, coming, coming, Switchboard.sound, inbox_enqueue, timers_enqueue]
    rw [← List.singleton_append, List.countP_append, ← htask]
    dsimp only
    omega

end Alarm

/-- Alarms do not look at the timers that are still set. -/
theorem sound_timers (s : Switchboard α ρ) (a : Alarm) (ts : List Timer) :
    ({ s with timers := ts } : Switchboard α ρ).sound a = { s.sound a with timers := ts } := by
  cases a <;> rfl

/-- An alarm sets no timer. -/
theorem timers_sound (s : Switchboard α ρ) (a : Alarm) : (s.sound a).timers = s.timers := by
  cases a <;> exact timers_enqueue _ _

/-- Timers run out one after another. -/
theorem inTune_foldl_sound (l : List Timer) {s : Switchboard α ρ}
    (h : ({ s with timers := l ++ s.timers } : Switchboard α ρ).InTune) :
    ((l.map Timer.alarm).foldl Switchboard.sound s).InTune := by
  induction l generalizing s with
  | nil => exact h
  | cons t rest ih =>
    have hfirst :
        (({ s with timers := rest ++ s.timers } : Switchboard α ρ).sound t.alarm).InTune :=
      inTune_sound h
    rw [sound_timers, ← timers_sound s t.alarm] at hfirst
    exact ih hfirst

/-- A timer that runs out announces a connection at most once. -/
theorem heralds_foldl_sound_le (l : List Timer) (s : Switchboard α ρ) (g : Nat) :
    ((l.map Timer.alarm).foldl Switchboard.sound s).heralds g ≤
      ({ s with timers := l ++ s.timers } : Switchboard α ρ).heralds g := by
  induction l generalizing s with
  | nil => exact Nat.le_refl _
  | cons t rest ih =>
    have hfirst :
        (({ s with timers := rest ++ s.timers } : Switchboard α ρ).sound t.alarm).heralds g ≤
        ({ s with timers := t :: rest ++ s.timers } : Switchboard α ρ).heralds g :=
      heralds_sound_le t.alarm g
    have hrest := ih (s.sound t.alarm)
    rw [sound_timers] at hfirst
    rw [timers_sound] at hrest
    exact Nat.le_trans hrest hfirst

/-- The timers that are due and those that are not are all timers. -/
theorem perm_due (s : Switchboard α ρ) (instant : Nat) :
    (s.timers.filter (·.due ≤ instant) ++ s.timers.filter (instant < ·.due)).Perm s.timers := by
  have hnot : ∀ t : Timer, decide (instant < t.due) = !decide (t.due ≤ instant) :=
    fun t => by rw [← decide_not, decide_eq_decide, Nat.not_le]
  simpa only [hnot] using List.filter_append_perm (fun t : Timer => decide (t.due ≤ instant))
    s.timers

/-- The clock keeps the connection in tune. -/
theorem inTune_tick {s : Switchboard α ρ} (h : s.InTune) (instant : Nat) :
    (s.occur (.tick instant)).InTune := by
  refine inTune_foldl_sound _ (InTuneBut.of_calm h
    { Calm.refl s with coming_eq := fun g => ?_ } ⟨rfl, fun t ht _ _ => ?_, fun _ _ hk => hk⟩)
  · exact congrArg (_ + ·) ((s.perm_due (max s.now instant)).countP_eq _)
  · simp only [List.mem_append, List.mem_filter, decide_eq_true_eq]
    exact (Nat.lt_or_ge (max s.now instant) t.due).symm.imp (.intro ht) (.intro ht)

/-- When the clock goes on nothing more is to be told than before. -/
theorem heralds_tick_le (s : Switchboard α ρ) (instant g : Nat) :
    (s.occur (.tick instant)).heralds g ≤ s.heralds g := by
  refine Nat.le_trans (heralds_foldl_sound_le _ _ g) (Nat.le_of_eq ?_)
  have hcount := (s.perm_due (max s.now instant)).countP_eq (·.alarm = .announce g)
  simp only [heralds, coming, hcount]

end VenueLink.Switchboard

import VenueLink.Proofs.Switchboard.Connecting
import VenueLink.Proofs.Switchboard.Play
import Mathlib.Data.List.Induction

/-!
# What a move does to the connection

Seen from the connection, few things can happen in a move: a caller has a turn, the wire hangs
up, it is about to be told that a connection is open, or the link hears a signal.
`Shift s xs s'` lists them, with the signals `xs` that are handled. None of them puts the
connection out of tune, so that a link that is connecting is always about to hear what comes of
it.

## Main results

* `shift_move`: every move that handles no signal from elsewhere is of one of these kinds.
* `inTune_play`: a play of such moves keeps the connection in tune.
* `play_induction`: what such moves keep holds in every play of them.
* `connecting_comes_to_something`: at most one attempt is in progress, and a link that is
  connecting is about to hear of it.
-/

namespace VenueLink.Switchboard

open Exchange

variable {α ρ : Type}

/-! ### Kinds of moves -/

/-- Between `s` and `s'` no exchange is answered: those that end run into their deadline, or
cannot be delivered any more. -/
def Unanswered (s s' : Switchboard α ρ) : Prop :=
  ∀ ex o, s'.correlator.outcome? ex = some o → s.correlator.outcome? ex = some o ∨
    ∃ f, o.resolution = .failed f ∧ f.cause ≠ .rejected

/-- Where no exchange is touched, none is answered. -/
theorem unanswered_of_eq {s s' : Switchboard α ρ} (h : s'.correlator = s.correlator) :
    Unanswered s s' :=
  fun _ _ ho => .inl (h ▸ ho)

/-- Nor in a turn. -/
theorem Spares.unanswered {k : Nat} {sent : List Nat} {s s' : Switchboard α ρ}
    (h : Spares k sent s s') : Unanswered s s' := by
  intro ex o ho
  refine (h.outcome?_cases ho).imp_right ?_
  rintro ⟨seen, hlost⟩
  exact ⟨_, hlost, by simp⟩

/-- What happens to the connection between `s` and `s'`, while the signals of `xs` are handled.
-/
inductive Shift (s : Switchboard α ρ) : List Signal → Switchboard α ρ → Prop
  /-- A caller has a turn, or the connection stays as it is. -/
  | turn {a b : Option Nat} {others : Nat → Prop} {s' : Switchboard α ρ}
    (hattuned : s.InTune → Attuned others a s) (htries : Tries a s b s') (hu : Unanswered s s')
    (htune : s.InTune → s'.InTune) : Shift s [] s'
  /-- The wire closes its connection. -/
  | hangUp (reason : String) :
    Shift s [] (({ s with wire := { s.wire with isOpen := false } } : Switchboard α ρ).hear
      (s.wire.connection.toList.map (Signal.closed · reason)))
  /-- News of an open connection is on its way. -/
  | tell {s' : Switchboard α ρ} (hlink : s'.link = s.link) (hwire : s'.wire = s.wire)
    (hcorrelator : s'.correlator = s.correlator)
    (hinbox : ∃ more, s'.inbox = s.inbox ++ more ∧ ∀ x ∈ more, ∃ g, x = .opened g)
    (hheralds : ∀ g, s'.heralds g ≤ s.heralds g) (htune : s.InTune → s'.InTune) : Shift s [] s'
  /-- The link hears a signal of the wire. -/
  | hear {x : Signal} {rest : List Signal} (hin : s.inbox = x :: rest) :
    Shift s [x] (({ s with inbox := rest } : Switchboard α ρ).handle x)

/-- No move puts the connection out of tune. -/
theorem Shift.inTune {s s' : Switchboard α ρ} {xs : List Signal} (h : Shift s xs s')
    (htune : s.InTune) : s'.InTune := by
  cases h with
  | turn _ _ _ hstays => exact hstays htune
  | hangUp reason => exact htune.hangUp reason
  | tell _ _ _ _ _ hstays => exact hstays htune
  | hear hin => exact htune.deliver hin

/-- Frames are sent only on an open link. -/
theorem Shift.sent {s s' : Switchboard α ρ} {xs : List Signal} (h : Shift s xs s')
    (hin : s.InTune) {x : Sent} (hx : x ∈ s'.wire.sent) :
    x ∈ s.wire.sent ∨ s'.link.phase = .opened ∧ x.generation = s'.link.generation := by
  have hafter := h.inTune hin
  cases h with
  | turn hattuned htries _ _ => exact htries.sent (hattuned hin) hx
  | hangUp reason =>
    rw [wire_hear] at hx
    exact .inl hx
  | tell _ hwire _ _ _ _ => exact .inl (hwire ▸ hx)
  | @hear y rest hinbox =>
    exact (calm_handle { s with inbox := rest } y).sent_cases hafter.attuned.opened hx

/-- A calm stretch. -/
theorem shift_of_calm {s s' : Switchboard α ρ} (hcalm : Calm s s') (hwakes : Wakes none s s')
    (hu : Unanswered s s') : Shift s [] s' :=
  .turn (fun h => h.attuned) (.calm hcalm) hu fun h => InTuneBut.of_calm h hcalm hwakes

/-- Some tasks are not ready any more, none of which is news of the connection or a caller's. -/
theorem shift_of_ready {s : Switchboard α ρ} {tasks : List Task}
    (hannounce : ∀ g, tasks.count (.announce g) = s.ready.count (.announce g))
    (hcaller : ∀ k, .caller k ∈ s.ready → .caller k ∈ tasks) :
    Shift s [] { s with ready := tasks } :=
  shift_of_calm (s.calm_ready hannounce) ⟨rfl, fun _ ht _ _ => ht, fun k _ => hcaller k⟩
    (unanswered_of_eq rfl)

/-- A caller has a turn that begins at `s₀`, where the connection and all other callers are as
at `s`. -/
theorem shift_of_goes {s s₀ s' : Switchboard α ρ} {k : Nat} {a : Option Nat} {sent : List Nat}
    {p : Prop} (ho : s.Orderly) (hcalm : Calm s s₀) (hwakes : Wakes (some k) s s₀)
    (hcorrelator : s₀.correlator = s.correlator)
    (ha : ∀ c ∈ s.callers, c.id = k → c.stage.attempt? = a)
    (hin : a ≠ none → ∃ c ∈ s.callers, c.id = k) (hturn : Spares k sent s₀ s')
    (hp : s.InTune → p) (hgoes : Goes p k a s₀ s') : Shift s [] s' := by
  have hnd : (s₀.callers.map Caller.id).Nodup := hwakes.callers_eq ▸ ho.ids_nodup
  have hu : Unanswered s s' := fun ex o hex => by
    rw [← hcorrelator]
    exact hturn.unanswered ex o hex
  obtain ⟨b, htries, -⟩ := id hgoes
  exact .turn (fun h => (h.but ha hin).attuned) ((Tries.calm hcalm).trans htries) hu fun h =>
    ((h.but ha hin).of_calm hcalm hwakes).turn hnd hturn (hp h) hgoes

/-- The first turn of a newcomer. -/
theorem shift_of_newcomer {s s' : Switchboard α ρ} (ho : s.Orderly)
    (hturn : Spares s.next [] s.enlist s') (hgoes : Goes True s.next none s.enlist s') :
    Shift s [] s' := by
  have hcalm : Calm s s.enlist := calm_of_eq rfl rfl rfl rfl rfl
  have hwakes : Wakes (some s.next) s s.enlist := wakes_of_eq rfl rfl rfl
  exact shift_of_goes ho hcalm hwakes rfl
    (fun c hc hid => absurd hid (Nat.ne_of_lt (ho.ids_lt c hc))) (fun hne => absurd rfl hne)
      hturn
    (fun _ => trivial) hgoes

/-- A caller has a turn. -/
theorem shift_of_caller {s s₀ s' : Switchboard α ρ} {c : Caller α ρ} {sent : List Nat}
    {p : Prop} (ho : s.Orderly) (hc : c ∈ s.callers) (hcalm : Calm s s₀)
    (hwakes : Wakes (some c.id) s s₀) (hcorrelator : s₀.correlator = s.correlator)
    (hturn : Spares c.id sent s₀ s') (hp : s.InTune → p)
    (hgoes : Goes p c.id c.stage.attempt? s₀ s') : Shift s [] s' :=
  shift_of_goes ho hcalm hwakes hcorrelator
    (fun d hd hid => by rw [eq_of_id_eq ho.ids_nodup hd hc hid]) (fun _ => ⟨c, hc, rfl⟩) hturn
      hp hgoes

/-! ### What is done from outside -/

/-- The wire is controlled. -/
theorem shift_control (s : Switchboard α ρ) (c : Wire.Control) :
    Shift s [] (({ s with wire := (s.wire.control c).1 } : Switchboard α ρ).hear
      (s.wire.control c).2) := by
  have hkept : ∀ w : Wire, Calm s { s with wire := w } → Shift s [] { s with wire := w } :=
    fun w hcalm => shift_of_calm hcalm (wakes_of_eq rfl rfl rfl) (unanswered_of_eq rfl)
  cases c with
  | push m =>
    have haside := s.aside_hear (s.wire.deliver m)
    refine shift_of_calm (calm_hear s fun x hx => ?_) (haside.wakes none)
      (unanswered_of_eq haside.correlator_eq)
    obtain ⟨g, hg, rfl⟩ := List.mem_map.mp hx
    exact ⟨g, m, Option.mem_toList.mp hg, rfl⟩
  | close reason => exact .hangUp reason
  | refuse on => exact hkept _ { Calm.refl s with }
  | stall duration => exact hkept _ { Calm.refl s with }
  | openDelay duration => exact hkept _ { Calm.refl s with }
  | respond r => exact hkept _ { Calm.refl s with }

/-- A plain action. -/
theorem shift_act {s : Switchboard α ρ} (ho : s.Orderly) {step : Step α ρ}
    (hplain : step.Plain) : Shift s [] (s.act step).1 := by
  cases step with
  | wire c => exact s.shift_control c
  | setHandshake handshake =>
    exact shift_of_calm { Calm.refl s with } (wakes_of_eq rfl rfl rfl) (unanswered_of_eq rfl)
  | launch label n plan =>
    exact shift_of_newcomer ho (spares_pursue (idle_enlist ho) label plan)
      (goes_pursue (idle_enlist ho) label plan)
  | ensureOpen label tell =>
    exact shift_of_newcomer ho (s.spares_ensureOpen label tell)
      (goes_ensureOpen ho True label tell)
  | listen label m timeout tell =>
    exact shift_of_newcomer ho (s.spares_listen label m timeout tell)
      (goes_listen ho True label m timeout tell)
  | cancel label =>
    change Shift s [] (s.cancel label)
    rw [cancel]
    cases hf : s.callers.reverse.find? fun c => c.label = label && c.goal.exchange?.isNone with
    | none => exact shift_of_calm (.refl s) (wakes_of_eq rfl rfl rfl) (unanswered_of_eq rfl)
    | some c =>
      have hc : c ∈ s.callers := List.mem_reverse.mp (List.mem_of_find?_eq_some hf)
      exact shift_of_caller ho hc (.refl s) (wakes_of_eq rfl rfl rfl) rfl (s.spares_stop c)
        (fun _ => trivial) (s.goes_stop True c)
  | transmit frame =>
    rw [act]
    cases hsend : s.transmit none frame with
    | error e => exact shift_of_calm (.refl s) (wakes_of_eq rfl rfl rfl) (unanswered_of_eq rfl)
    | ok s' =>
      have haside := aside_transmit hsend
      exact shift_of_calm (calm_transmit hsend) (haside.wakes none)
        (unanswered_of_eq haside.correlator_eq)
  | pump => exact absurd hplain id
  | signal signal => exact absurd hplain id
  | advance duration => exact absurd hplain id

/-! ### What is ready -/

/-- A task is taken up that is not news of the connection. -/
theorem calm_pop {s : Switchboard α ρ} {t : Task} {rest : List Task} (hr : s.ready = t :: rest)
    (ht : ∀ g, t ≠ .announce g) : Calm s { s with ready := rest } :=
  s.calm_ready fun g => by rw [hr, List.count_cons_of_ne (ht g)]

/-- A task is taken up that is not a caller's, unless it is that of the one in `hand`. -/
theorem wakes_pop {s : Switchboard α ρ} {hand : Option Nat} {t : Task} {rest : List Task}
    (hr : s.ready = t :: rest) (ht : ∀ k, some k ≠ hand → t ≠ .caller k) :
    Wakes hand s { s with ready := rest } :=
  ⟨rfl, fun _ ht _ _ => ht, fun k hk hmem =>
    (List.mem_cons.mp (hr ▸ hmem)).resolve_left (ht k hk).symm⟩

/-- The watch over an exchange leaves the connection and the callers alone. -/
theorem calm_getOn (s : Switchboard α ρ) (id : Nat) :
    Calm s (s.getOn id) ∧ Wakes none s (s.getOn id) := by
  rw [getOn]
  cases s.correlator.pending? id with
  | none => exact ⟨.refl s, (Aside.refl s).wakes none⟩
  | some e =>
    dsimp only
    split
    · next hlt =>
      have hsleep : s.Aside [] (s.arm (e.deadline - s.now) (.watch id)) :=
        s.aside_arm (Nat.sub_ne_zero_of_lt hlt) fun _ heq => by cases heq
      exact ⟨s.calm_arm _ (fun _ heq => by cases heq), hsleep.wakes none⟩
    · exact ⟨calm_of_eq rfl rfl rfl rfl rfl, wakes_of_eq rfl rfl rfl⟩

/-- An exchange that was about to expire does. -/
theorem unanswered_expire {s : Switchboard α ρ} (hs : s.correlator.Sound) (id : Nat) :
    Unanswered s { s with correlator := s.correlator.expire s.now id } := by
  intro ex o ho
  by_cases hp : id ∈ s.correlator.pendingIds
  · obtain ⟨e, he, rfl⟩ := List.mem_map.mp hp
    refine ((Correlator.ends_expire hs s.now he).outcome?_cases ho).imp_right ?_
    rintro ⟨-, hmem, -⟩
    obtain rfl := List.mem_singleton.mp hmem
    exact ⟨_, rfl, by simp⟩
  · rw [Correlator.expire_of_not_pending hp] at ho
    exact .inl ho

/-- News of a connection that was about to be told is told. -/
theorem heralds_announce_le {s : Switchboard α ρ} {g : Nat} {rest : List Task}
    (hr : s.ready = .announce g :: rest) (k : Nat) :
    (({ s with ready := rest } : Switchboard α ρ).perform (.announce g)).heralds k ≤ s.heralds
      k := by
  have hsignal :
      [Signal.opened g].count (.opened k) = [Task.announce g].count (.announce k) := by
    by_cases hg : g = k <;> simp [hg]
  have hcount : s.ready.count (.announce k) =
      [Task.announce g].count (.announce k) + rest.count (.announce k) := by
    rw [hr, ← List.singleton_append, List.count_append]
  rw [perform, heralds_hear, heralds, heralds, coming, coming, hsignal, hcount]
  dsimp only
  omega

/-- Those who have yielded have to do with exchanges only. -/
theorem shift_resume {s : Switchboard α ρ} (hr : s.ready = []) : Shift s [] s.resume := by
  have hready : Calm s { s with ready := s.resume.ready } := s.calm_ready fun g => by
    rw [hr, List.count_nil, List.count_eq_zero]
    simp [resume]
  exact shift_of_calm (hready.trans (calm_of_eq rfl rfl rfl rfl rfl))
    ⟨rfl, fun _ ht _ _ => ht, fun k _ hk => by simp [hr] at hk⟩ (unanswered_of_eq rfl)

/-- So have the watches over them. -/
theorem shift_getOn {s : Switchboard α ρ} {id : Nat} {rest : List Task}
    (hr : s.ready = .watch id :: rest) :
    Shift s [] (({ s with ready := rest } : Switchboard α ρ).perform (.watch id)) := by
  have hpop := calm_pop hr fun _ heq => by cases heq
  have hwakes : Wakes none s { s with ready := rest } := wakes_pop hr fun _ _ heq => by
      cases heq
  obtain ⟨hcalm, hgoes⟩ := calm_getOn ({ s with ready := rest } : Switchboard α ρ) id
  exact shift_of_calm (hpop.trans hcalm) (hwakes.trans hgoes)
    (unanswered_of_eq (correlator_getOn _ id))

section Perform

variable {s : Switchboard α ρ} {rest : List Task} (ho : s.Orderly)
include ho

/-- An exchange runs into its deadline. -/
theorem shift_expire {id : Nat} (hr : s.ready = .expire id :: rest) :
    Shift s [] (({ s with ready := rest } : Switchboard α ρ).perform (.expire id)) := by
  have hpop := calm_pop hr fun _ heq => by cases heq
  have hwakes : Wakes none s { s with ready := rest } := wakes_pop hr fun _ _ heq => by
      cases heq
  have hexpire : Wakes none ({ s with ready := rest } : Switchboard α ρ)
      { s with ready := rest, correlator := s.correlator.expire s.now id } :=
        wakes_of_eq rfl rfl rfl
  refine shift_of_calm ((hpop.trans (calm_correlator _ _)).trans (calm_wakeWhere _ _))
    ((hwakes.trans hexpire).trans (wakes_wakeWaiting _ id none)) ?_
  intro ex o hex
  rw [perform, wakeWaiting, (aside_wakeWhere _ _).correlator_eq] at hex
  exact unanswered_expire ho.sound id ex o hex

/-- A caller that is ready has its turn. -/
theorem shift_tend {k : Nat} (hr : s.ready = .caller k :: rest) :
    Shift s [] (({ s with ready := rest } : Switchboard α ρ).perform (.caller k)) := by
  have hpop := calm_pop hr fun _ heq => by cases heq
  have hwakes : Wakes (some k) s { s with ready := rest } :=
    wakes_pop hr fun j hj heq => hj (congrArg some (Task.caller.inj heq).symm)
  rw [perform]
  cases hf : ({ s with ready := rest } : Switchboard α ρ).caller? k with
  | none =>
    -- nobody has this id, so nobody misses the turn
    have hnone : ∀ c ∈ s.callers, c.id ≠ k := caller?_eq_none_iff.mp hf
    exact shift_of_goes (p := True) ho hpop hwakes rfl (fun c hc hid => absurd hid (hnone c hc))
      (fun hne => absurd rfl hne) ((Aside.refl _).spares_nil k) (fun _ => trivial)
      ⟨none, .calm (.refl _), fun hne => absurd rfl hne,
        fun d hd hid => absurd hid (hnone d hd)⟩
  | some c =>
    obtain ⟨hc, rfl⟩ : c ∈ s.callers ∧ c.id = k := mem_of_caller?_eq_some hf
    have hp : ∀ ex spec, c.goal.errand? = some (ex, spec) →
        ({ s with ready := rest } : Switchboard α ρ).Poised c ex spec :=
      fun ex spec he => poised_of_ready ho hr hc he
    have hpaused : s.InTune →
        ({ s with ready := rest } : Switchboard α ρ).Paused c.id c.stage := by
      intro h g hstage
      have hattended := h.attended c hc (by simp)
      rw [hstage] at hattended ⊢
      exact hattended
    exact shift_of_caller ho hc hpop hwakes rfl (spares_tend (orderlyBut_pop ho hr) hp) hpaused
      (goes_tend (orderlyBut_pop ho hr) hp)

/-- What is done next. -/
theorem shift_next : Shift s [] (s.move .next) := by
  cases hr : s.ready with
  | nil =>
    have hmove : s.move .next = s.occur .next := by rw [move, hr]
    rw [hmove, occur_next_of_nil hr]
    exact shift_resume hr
  | cons t rest =>
    cases t with
    | signals =>
      have hmove : s.move .next = { s with ready := rest } := by rw [move, hr]
      rw [hmove]
      exact shift_of_calm (calm_pop hr fun _ heq => by cases heq)
        (wakes_pop hr fun _ _ heq => by cases heq) (unanswered_of_eq rfl)
    | announce g =>
      have hmove : s.move .next = s.occur .next := by rw [move, hr]
      rw [hmove, occur_next_of_ready hr]
      exact .tell (link_hear _ _) (wire_hear _ _) (aside_hear _ _).correlator_eq
        ⟨[.opened g], inbox_hear _ _, fun x hx => ⟨g, List.mem_singleton.mp hx⟩⟩
        (heralds_announce_le hr) fun h => inTune_announce h hr
    | watch id =>
      have hmove : s.move .next = s.occur .next := by rw [move, hr]
      rw [hmove, occur_next_of_ready hr]
      exact shift_getOn hr
    | expire id =>
      have hmove : s.move .next = s.occur .next := by rw [move, hr]
      rw [hmove, occur_next_of_ready hr]
      exact shift_expire ho hr
    | caller k =>
      have hmove : s.move .next = s.occur .next := by rw [move, hr]
      rw [hmove, occur_next_of_ready hr]
      exact shift_tend ho hr

end Perform

/-! ### Moves and plays -/

/-- Every move that handles no signal from elsewhere is a shift. -/
theorem shift_move {s : Switchboard α ρ} (ho : s.Orderly) {m : Move α ρ} (hm : m.Own) :
    Shift s (s.heard m) (s.move m) := by
  cases m with
  | act step plain => exact shift_act ho plain
  | next => exact shift_next ho
  | tick instant =>
    have hticked := s.ticked_tick instant
    refine .tell ?_ ?_ hticked.correlator_eq ⟨[], ?_, fun _ hx => absurd hx List.not_mem_nil⟩
      (s.heralds_tick_le instant) fun h => inTune_tick h instant
    · rw [move, hticked.same]
    · rw [move, hticked.same]
    · rw [move, hticked.same, List.append_nil]
  | deliver =>
    rw [heard, move]
    cases hin : s.inbox with
    | nil => exact shift_of_calm (.refl s) (wakes_of_eq rfl rfl rfl) (unanswered_of_eq rfl)
    | cons x rest => exact .hear hin
  | hush => exact shift_of_ready (fun g => List.count_filter (by simp)) fun k => by simp
  | intrude signal => exact absurd hm id

/-- A move keeps the connection in tune, if its signals come from the transport. -/
theorem inTune_move {s : Switchboard α ρ} (ho : s.Orderly) (h : s.InTune) {m : Move α ρ}
    (hm : m.Own) : (s.move m).InTune :=
  (shift_move ho hm).inTune h

/-- So does a play. -/
theorem inTune_play {s : Switchboard α ρ} (ho : s.Orderly) (h : s.InTune)
    {moves : List (Move α ρ)} (hmoves : ∀ m ∈ moves, m.Own) : (s.play moves).InTune := by
  induction moves generalizing s with
  | nil => exact h
  | cons m rest ih =>
    exact ih (orderly_move ho m) (inTune_move ho h (hmoves m List.mem_cons_self))
      fun m' hm' => hmoves m' (List.mem_cons_of_mem _ hm')

/-- What holds at the start and is kept by every move that handles no signal from elsewhere
holds in every play of such moves. -/
theorem play_induction (cap : Nat) (manual : Bool)
    {motive : List (Move α ρ) → Switchboard α ρ → Prop} (hstart : motive [] (start cap manual))
    (hmove : ∀ before m, let s := (start cap manual).play before
      s.Orderly → s.InTune → m.Own → motive before s → motive (before ++ [m]) (s.move m))
    {moves : List (Move α ρ)} (hmoves : ∀ m ∈ moves, m.Own) :
    motive moves ((start cap manual).play moves) := by
  induction moves using List.reverseRecOn with
  | nil => exact hstart
  | append_singleton before m ih =>
    have hbefore : ∀ m ∈ before, m.Own := fun m' hm' => hmoves m' (List.mem_append_left _ hm')
    have ho := orderly_play
      (orderly_start cap manual : (start cap manual : Switchboard α ρ).Orderly)
      before
    have hin := inTune_play (orderly_start cap manual) (inTune_start cap manual) hbefore
    rw [play_concat]
    exact hmove before m ho hin
      (hmoves m (List.mem_append_right _ (List.mem_singleton.mpr rfl)))
      (ih hbefore)

/-- In every state of a run, and in the middle of its steps: the wire counts as many attempts as
the link, at most one attempt is in progress, and it is the latest one. While the link is
connecting, either that attempt is in progress and its caller will go on with it, or it is still
to be told that the connection is open. -/
theorem connecting_comes_to_something (cap : Nat) (manual : Bool) {steps : List (Step α ρ)}
    (hsteps : ∀ signal, .signal signal ∉ steps) {moves : List (Move α ρ)}
    (hmoves : ∀ m ∈ moves, m.Own) :
    let s := ((start cap manual).run steps).play moves
    s.wire.connects = s.link.generation ∧
    (∀ c ∈ s.callers, ∀ d ∈ s.callers, c.stage.attempt? ≠ none → d.stage.attempt? ≠ none →
      c = d) ∧
    (∀ c ∈ s.callers, ∀ g, c.stage.attempt? = some g →
      g = s.link.generation ∧ s.link.phase = .connecting) ∧
    (s.link.phase = .connecting →
      (∃ c ∈ s.callers, c.stage.attempt? = some s.link.generation ∧ s.Attended c.id c.stage) ∨
        s.Awaits s.link.generation) := by
  have hplays : PlaysTo Move.Own (start cap manual) ((start cap manual).run steps) :=
    playsTo_run (fun _ h => h) (orderly_start cap manual) fun signal hmem =>
      absurd hmem (hsteps signal)
  obtain ⟨before, hbefore, hrun⟩ := hplays
  have hall : ∀ m ∈ before ++ moves, m.Own := fun m hm =>
    (List.mem_append.mp hm).elim (hbefore m) (hmoves m)
  rw [hrun, ← play_append]
  have ho := orderly_play
    (orderly_start cap manual : (start cap manual : Switchboard α ρ).Orderly)
    (before ++ moves)
  have h := inTune_play (orderly_start cap manual) (inTune_start cap manual) hall
  generalize (start cap manual : Switchboard α ρ).play (before ++ moves) = s at ho h ⊢
  refine ⟨h.attuned.connects_eq, fun c hc d hd hca hda => ?_, fun c hc g hg => ?_,
    fun hphase => ?_⟩
  · exact eq_of_id_eq ho.ids_nodup hc hd (h.alone c hc d hd (by simp) (by simp) hca hda)
  · obtain ⟨hgeneration, hphase, -⟩ := h.attuned.attempt g (.inr ⟨c, hc, by simp, hg⟩)
    exact ⟨hgeneration, hphase⟩
  · refine (h.attuned.connecting hphase).imp_left ?_
    rintro (hnone | ⟨c, hc, -, hg⟩)
    · cases hnone
    · exact ⟨c, hc, hg, h.attended c hc (by simp)⟩

/-- Two callers ask for a connection while the wire lets the attempt hang, and then takes its
time. -/
def slowOpening : List (Step Unit Unit) :=
  [.wire (.stall 100), .wire (.openDelay 50), .ensureOpen "first" fun _ => (),
    .ensureOpen "second" fun _ => ()]

/-- The attempt hangs: the first caller is making it, and the second one waits. Then it goes
through, and a timer is set for the news of that. -/
theorem slowOpening_comes_to_something :
    let hanging := ((start 0 false).run slowOpening).play []
    let through := ((start 0 false).run slowOpening).play [.tick 100, .next]
    (hanging.link.phase = .connecting ∧
      hanging.callers.map Caller.stage = [.connecting 1 false, .opening] ∧
      ((∃ c ∈ hanging.callers, c.stage.attempt? = some hanging.link.generation ∧
        hanging.Attended c.id c.stage) ∨ hanging.Awaits hanging.link.generation)) ∧
    through.link.phase = .connecting ∧ through.callers.map Caller.stage = [.opening, .opening] ∧
      ((∃ c ∈ through.callers, c.stage.attempt? = some through.link.generation ∧
        through.Attended c.id c.stage) ∨ through.Awaits through.link.generation) := by
  have hsteps : ∀ signal, .signal signal ∉ slowOpening := by simp [slowOpening]
  have hmoves : ∀ m ∈ [.tick 100, .next], Move.Own (m : Move Unit Unit) := by simp [Move.Own]
  have hhanging : (((start 0 false).run slowOpening).play []).link.phase = .connecting := by
    decide +kernel
  have hthrough : (((start 0 false).run slowOpening).play [.tick 100, .next]).link.phase =
      .connecting := by
    decide +kernel
  refine ⟨⟨hhanging, by decide +kernel, ?_⟩, hthrough, by decide +kernel, ?_⟩
  · exact (connecting_comes_to_something 0 false hsteps
      fun m hm => absurd hm List.not_mem_nil).2.2.2
      hhanging
  · exact (connecting_comes_to_something 0 false hsteps hmoves).2.2.2 hthrough

end VenueLink.Switchboard

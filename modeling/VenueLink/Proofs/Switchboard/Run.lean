import VenueLink.Proofs.Switchboard.Alarm

/-!
# Runs

The events of a switchboard keep it in order, so a whole run of them does. `Switchboard.run` is
such a run, since a step is what is done from outside, followed by what is ready being done bit
by bit.

## Main results

* `keeps_occur`, `Orderly.after`, `Orderly.evolves`: events keep what they find.
* `after_history`: a run is what its events, `history`, lead to.
-/

namespace VenueLink.Switchboard

open Exchange Correlator

variable {α ρ : Type}

/-! ### Events -/

/-- What is ready first is done next. -/
theorem occur_next_of_ready {s : Switchboard α ρ} {t : Task} {rest : List Task}
    (hr : s.ready = t :: rest) :
    s.occur .next = ({ s with ready := rest } : Switchboard α ρ).perform t := by
  rw [occur, next?, hr]
  rfl

/-- If nothing is ready, those who have yielded go on. -/
theorem occur_next_of_nil {s : Switchboard α ρ} (hr : s.ready = []) :
    s.occur .next = s.resume := by
  rw [occur, next?, hr]
  dsimp only
  split
  · next hy =>
    rw [resume, hy]
    change s = { s with ready := [], yielded := [] }
    rw [← hr, ← hy]
  · rfl

/-- The caller that has a turn when what is ready first is done. -/
def turnNext (s : Switchboard α ρ) : List Nat :=
  match s.ready with
  | .caller k :: _ => [k]
  | _ => []

/-- What is ready first is done, or else those who have yielded go on. -/
theorem keeps_next (s : Switchboard α ρ) : Keeps s.sentNext s.turnNext s (s.occur .next) := by
  cases hr : s.ready with
  | nil =>
    rw [occur_next_of_nil hr, sentNext, turnNext, hr]
    exact keeps_resume hr
  | cons t rest =>
    rw [occur_next_of_ready hr]
    cases t with
    | caller k =>
      rw [turnNext, hr]
      exact keeps_caller hr
    | signals =>
      rw [sentNext, turnNext, hr]
      exact (keeps_pop hr fun _ heq => by cases heq).trans (keeps_drain _)
    | announce g =>
      rw [sentNext, turnNext, hr]
      exact (keeps_pop hr fun _ heq => by cases heq).trans (aside_hear _ [.opened g]).keeps
    | watch id =>
      rw [sentNext, turnNext, hr]
      exact (keeps_pop hr fun _ heq => by cases heq).trans (keeps_getOn _ id)
    | expire id =>
      rw [sentNext, turnNext, hr]
      exact keeps_expire hr

/-- Nothing is sent by controlling the wire. -/
theorem sent_control (w : Wire) (c : Wire.Control) : (w.control c).1.sent = w.sent := by
  cases c <;> rfl

/-- An action keeps order. -/
theorem keeps_act (s : Switchboard α ρ) (step : Step α ρ) :
    Keeps [] [] s (s.occur (.act step)) := by
  cases step with
  | wire c =>
    have hwire : s.Aside [] { s with wire := (s.wire.control c).1 } :=
      aside_wire s (sent_control s.wire c)
    exact (hwire.trans_nil (aside_hear _ _)).keeps
  | setHandshake handshake => exact (s.aside_link _).keeps
  | launch label n plan => exact s.keeps_launch label plan
  | ensureOpen label tell => exact s.keeps_ensureOpen label tell
  | listen label m timeout tell => exact s.keeps_listen label m timeout tell
  | cancel label => exact s.keeps_cancel label
  | transmit frame =>
    change Keeps [] [] s (s.act (.transmit frame)).1
    rw [act]
    cases h : s.transmit none frame with
    | error e => exact .refl s
    | ok s' => exact (aside_transmit h).keeps
  | pump => exact s.keeps_drain
  | signal signal => exact s.keeps_handle signal
  | advance duration => exact .refl s

/-- The exchanges whose requests are sent in an event, apart from new ones. -/
def sentIn (s : Switchboard α ρ) : Event α ρ → List Nat
  | .next => s.sentNext
  | _ => []

/-- The caller that has a turn in an event, apart from a new one. -/
def turnIn (s : Switchboard α ρ) : Event α ρ → List Nat
  | .next => s.turnNext
  | _ => []

/-- Every event keeps the switchboard in order and undoes nothing. -/
theorem keeps_occur (s : Switchboard α ρ) (e : Event α ρ) :
    Keeps (s.sentIn e) (s.turnIn e) s (s.occur e) := by
  cases e with
  | act step => exact s.keeps_act step
  | next => exact s.keeps_next
  | tick instant => exact s.keeps_tick instant
  | collect => exact (s.aside_inbox []).keeps
  | hush => exact s.keeps_hush

/-- The exchanges whose requests are sent in several events, apart from new ones. -/
def sentOver (s : Switchboard α ρ) : List (Event α ρ) → List Nat
  | [] => []
  | e :: rest => s.sentIn e ++ (s.occur e).sentOver rest

/-- The callers that have turns in several events, apart from new ones. -/
def turnsOver (s : Switchboard α ρ) : List (Event α ρ) → List Nat
  | [] => []
  | e :: rest => s.turnIn e ++ (s.occur e).turnsOver rest

/-- Any events keep order. -/
theorem keeps_after (s : Switchboard α ρ) (events : List (Event α ρ)) :
    Keeps (s.sentOver events) (s.turnsOver events) s (s.after events) := by
  induction events generalizing s with
  | nil => exact .refl s
  | cons e rest ih => exact (s.keeps_occur e).trans (ih _)

/-- After any events everything is in order. -/
theorem Orderly.after {s : Switchboard α ρ} (h : s.Orderly) (events : List (Event α ρ)) :
    (s.after events).Orderly :=
  (s.keeps_after events h).1

/-- And nothing that has happened is undone. -/
theorem Orderly.evolves {s : Switchboard α ρ} (h : s.Orderly) (events : List (Event α ρ)) :
    Evolves (s.sentOver events) (s.turnsOver events) s (s.after events) :=
  (s.keeps_after events h).2

/-! ### Runs -/

/-- A signal takes no time. -/
theorem now_handle (s : Switchboard α ρ) (signal : Signal) : (s.handle signal).now = s.now := by
  simp only [handle]
  split
  · rfl
  · cases signal with
    | opened g =>
      exact (s.aside_greet.trans_nil ((aside_link _ _).trans_nil (aside_wakeWhere _ _))).now_eq
    | message g payload => exact (aside_foldl_wakeWaiting _ _).now_eq
    | closed g reason =>
      exact (aside_foldl_wakeWaiting _ _).now_eq.trans (aside_wakeWhere _ _).now_eq

/-- Nor do several. -/
theorem now_foldl_handle (s : Switchboard α ρ) (signals : List Signal) :
    (signals.foldl handle s).now = s.now := by
  induction signals generalizing s with
  | nil => rfl
  | cons x rest ih => exact (ih _).trans (s.now_handle x)

/-- Nor do those that have been taken in. -/
theorem now_sift (s : Switchboard α ρ) : s.sift.now = s.now :=
  now_foldl_handle { s with inbox := [] } s.inbox

/-- The watch over an exchange sleeps or yields, and does nothing else. -/
theorem getOn_eq (s : Switchboard α ρ) (exchange : Nat) : s.getOn exchange =
    { s with timers := (s.getOn exchange).timers, yielded := (s.getOn exchange).yielded } := by
  rw [getOn]
  split
  · rfl
  · split <;> rfl

/-- A watch that gets on takes no time. -/
@[simp] theorem now_getOn (s : Switchboard α ρ) (exchange : Nat) :
    (s.getOn exchange).now = s.now := by
  rw [getOn_eq]

/-- And touches no exchange. -/
@[simp] theorem correlator_getOn (s : Switchboard α ρ) (exchange : Nat) :
    (s.getOn exchange).correlator = s.correlator := by
  rw [getOn_eq]

/-- Nor the link. -/
@[simp] theorem link_getOn (s : Switchboard α ρ) (exchange : Nat) :
    (s.getOn exchange).link = s.link := by
  rw [getOn_eq]

/-- Nor the wire. -/
@[simp] theorem wire_getOn (s : Switchboard α ρ) (exchange : Nat) :
    (s.getOn exchange).wire = s.wire := by
  rw [getOn_eq]

/-- Time does not pass by what is ready being done. -/
theorem now_next {s : Switchboard α ρ} (h : s.Orderly) : (s.occur .next).now = s.now := by
  cases hr : s.ready with
  | nil => rw [occur_next_of_nil hr, resume]
  | cons t rest =>
    rw [occur_next_of_ready hr]
    cases t with
    | signals => exact (now_sift _).trans (now_sift _)
    | announce g => exact (aside_hear _ [.opened g]).now_eq
    | watch id => exact now_getOn _ id
    | expire id => exact (aside_wakeWhere _ _).now_eq
    | caller k =>
      rw [perform]
      cases hf : ({ s with ready := rest } : Switchboard α ρ).caller? k with
      | none => rfl
      | some c =>
        obtain ⟨hc, rfl⟩ : c ∈ s.callers ∧ c.id = k := mem_of_caller?_eq_some hf
        have hpop := (orderlyBut_pop h hr)
        exact (spares_tend hpop fun ex spec he => poised_of_ready h hr hc he).now_eq

/-- One state leads to another by events. -/
def Reaches (s s' : Switchboard α ρ) : Prop :=
  ∃ events, s' = s.after events

/-- A state leads to itself. -/
theorem Reaches.refl (s : Switchboard α ρ) : s.Reaches s :=
  ⟨[], rfl⟩

/-- And on from where it leads. -/
theorem Reaches.trans {s₁ s₂ s₃ : Switchboard α ρ} (h₁ : s₁.Reaches s₂) (h₂ : s₂.Reaches s₃) :
    s₁.Reaches s₃ := by
  obtain ⟨xs, rfl⟩ := h₁
  obtain ⟨ys, rfl⟩ := h₂
  exact ⟨xs ++ ys, (s₁.after_append xs ys).symm⟩

/-- One event leads to another state. -/
theorem reaches_occur (s : Switchboard α ρ) (e : Event α ρ) : s.Reaches (s.occur e) :=
  ⟨[e], rfl⟩

/-- Order is kept on the way. -/
theorem Reaches.orderly {s s' : Switchboard α ρ} (h : s.Reaches s') (ho : s.Orderly) :
    s'.Orderly := by
  obtain ⟨events, rfl⟩ := h
  exact ho.after events

/-! ### The events of a run -/

/-- The events in which at most `n` things happen. -/
def happenings : Nat → Switchboard α ρ → List (Event α ρ)
  | 0, _ => []
  | n + 1, s =>
    match s.next? with
    | some s' => .next :: happenings n s'
    | none => []

/-- The events in which time goes through at most `n` instants up to `limit`. -/
def passage (limit : Nat) : Nat → Switchboard α ρ → List (Event α ρ)
  | 0, _ => []
  | n + 1, s =>
    match s.nextInstant? limit with
    | some instant =>
      let s' := s.occur (.tick instant)
      .tick instant :: (happenings s'.effort s' ++ passage limit n s'.settle)
    | none => []

/-- The events that a step consists of by itself. -/
def actions (s : Switchboard α ρ) : Step α ρ → List (Event α ρ)
  | .advance duration =>
      passage (s.now + duration) (duration + 1) s ++ [.tick (s.now + duration)]
  | t => [.act t]

/-- The events of a step, up to where everything has happened that follows from it at once. -/
def trace (s : Switchboard α ρ) (t : Step α ρ) : List (Event α ρ) :=
  s.actions t ++ happenings (s.act t).1.effort (s.act t).1

/-- The events of several steps. -/
def history (s : Switchboard α ρ) : List (Step α ρ) → List (Event α ρ)
  | [] => []
  | t :: rest => s.trace t ++ (s.step t).1.history rest

section Events

variable {p : Event α ρ → Prop} (hnext : p .next)
include hnext

/-- Nothing else happens than that what is ready is done. -/
theorem forall_happenings (n : Nat) (s : Switchboard α ρ) : ∀ e ∈ happenings n s, p e := by
  induction n generalizing s with
  | zero => exact fun _ he => absurd he List.not_mem_nil
  | succ n ih =>
    rw [happenings]
    cases s.next? with
    | none => exact fun _ he => absurd he List.not_mem_nil
    | some s' => exact List.forall_mem_cons.mpr ⟨hnext, ih s'⟩

variable (htick : ∀ instant, p (.tick instant))
include htick

/-- All events in which time passes have a property, if the single ones do. -/
theorem forall_passage (limit n : Nat) (s : Switchboard α ρ) :
    ∀ e ∈ passage limit n s, p e := by
  induction n generalizing s with
  | zero => exact fun _ he => absurd he List.not_mem_nil
  | succ n ih =>
    rw [passage]
    cases s.nextInstant? limit with
    | none => exact fun _ he => absurd he List.not_mem_nil
    | some instant =>
      refine List.forall_mem_cons.mpr ⟨htick instant, fun e he => ?_⟩
      exact (List.mem_append.mp he).elim (forall_happenings hnext _ _ e) (ih _ e)

/-- So have those of a step. -/
theorem forall_trace {t : Step α ρ} (hact : (∀ duration, t ≠ .advance duration) → p (.act t))
    (s : Switchboard α ρ) : ∀ e ∈ s.trace t, p e := by
  refine List.forall_mem_append.mpr ⟨?_, forall_happenings hnext _ _⟩
  cases t with
  | advance duration =>
    exact List.forall_mem_append.mpr
      ⟨forall_passage hnext htick _ _ s, List.forall_mem_singleton.mpr (htick _)⟩
  | _ => exact List.forall_mem_singleton.mpr (hact fun _ => nofun)

end Events

/-- What comes of one event and then others. -/
theorem after_cons (s : Switchboard α ρ) (e : Event α ρ) (events : List (Event α ρ)) :
    s.after (e :: events) = (s.occur e).after events :=
  rfl

/-- What happens next is the event in which it does. -/
theorem occur_next_of_next? {s s' : Switchboard α ρ} (h : s.next? = some s') :
    s.occur .next = s' := by
  rw [occur, h, Option.getD_some]

/-- The events in which things happen lead to where they do. -/
theorem after_happenings (n : Nat) (s : Switchboard α ρ) :
    s.after (happenings n s) = s.happen n := by
  induction n generalizing s with
  | zero => rfl
  | succ n ih =>
    rw [happenings, happen]
    cases hn : s.next? with
    | none => rfl
    | some s' => exact (after_cons _ _ _).trans (occur_next_of_next? hn ▸ ih s')

/-- And those in which time passes. -/
theorem after_passage (limit n : Nat) (s : Switchboard α ρ) :
    s.after (passage limit n s) = elapse limit n s := by
  induction n generalizing s with
  | zero => rfl
  | succ n ih =>
    rw [passage, elapse]
    cases s.nextInstant? limit with
    | none => rfl
    | some instant =>
      dsimp only
      rw [after_cons, after_append, after_happenings]
      exact ih _

/-- Time does not pass while everything happens. -/
theorem now_happen {s : Switchboard α ρ} (h : s.Orderly) (n : Nat) :
    (s.happen n).now = s.now := by
  induction n generalizing s with
  | zero => rfl
  | succ n ih =>
    rw [happen]
    cases hn : s.next? with
    | none => rfl
    | some s' =>
      obtain rfl := occur_next_of_next? hn
      exact (ih (h.after [.next])).trans (now_next h)

/-- Order is kept while things happen. -/
theorem Orderly.happen {s : Switchboard α ρ} (h : s.Orderly) (n : Nat) : (s.happen n).Orderly :=
  after_happenings n s ▸ h.after _

/-- The next instant is not past the limit. -/
theorem nextInstant?_le {s : Switchboard α ρ} {limit instant : Nat}
    (h : s.nextInstant? limit = some instant) : instant ≤ limit := by
  have := List.min?_mem h
  simpa using (List.mem_filter.mp this).2

/-- Time does not go past the limit. -/
theorem now_elapse_le {s : Switchboard α ρ} (h : s.Orderly) {limit : Nat} (hle : s.now ≤ limit)
    (n : Nat) : (elapse limit n s).now ≤ limit := by
  induction n generalizing s with
  | zero => exact hle
  | succ n ih =>
    rw [elapse]
    cases hn : s.nextInstant? limit with
    | none => exact hle
    | some instant =>
      have htick : (s.occur (.tick instant)).Orderly := h.after [.tick instant]
      have hnow : (s.occur (.tick instant)).settle.now = max s.now instant :=
        (now_happen htick _).trans (s.ticked_tick instant).now_eq
      exact ih (htick.happen _)
        (Nat.le_trans (Nat.le_of_eq hnow) (Nat.max_le.mpr ⟨hle, nextInstant?_le hn⟩))

/-- The clock is set at the end of a stretch of time. -/
theorem advance_eq_occur {s : Switchboard α ρ} (h : s.Orderly) (duration : Nat) :
    s.advance duration =
      (elapse (s.now + duration) (duration + 1) s).occur (.tick (s.now + duration)) := by
  have hle := now_elapse_le h (Nat.le_add_right s.now duration) (duration + 1)
  rw [advance, occur, Nat.max_eq_right hle]

/-- The events of a step lead to where the step does. -/
theorem after_actions {s : Switchboard α ρ} (h : s.Orderly) (t : Step α ρ) :
    s.after (s.actions t) = (s.act t).1 := by
  cases t with
  | advance duration =>
    rw [actions, after_append, after_passage, after_cons, ← advance_eq_occur h]
    rfl
  | _ => rfl

/-- A step is what its events lead to. -/
theorem after_trace {s : Switchboard α ρ} (h : s.Orderly) (t : Step α ρ) :
    s.after (s.trace t) = (s.step t).1 := by
  rw [trace, after_append, after_actions h, after_happenings]
  rfl

/-- Time has gone on by so much when a step of that is over. -/
theorem now_step_advance {s : Switchboard α ρ} (h : s.Orderly) (duration : Nat) :
    (s.step (.advance duration)).1.now = s.now + duration := by
  have hle := now_elapse_le h (Nat.le_add_right s.now duration) (duration + 1)
  have hlast : (s.act (.advance duration)).1.now = s.now + duration := by
    change (s.advance duration).now = _
    rw [advance_eq_occur h, (ticked_tick _ _).now_eq, Nat.max_eq_right hle]
  have hact : (s.act (.advance duration)).1.Orderly :=
    after_actions h (.advance duration) ▸ h.after _
  exact (now_happen hact _).trans hlast

/-- A step keeps order. -/
theorem Orderly.step {s : Switchboard α ρ} (h : s.Orderly) (t : Step α ρ) :
    (s.step t).1.Orderly :=
  after_trace h t ▸ h.after _

/-- A run is what its events lead to. -/
theorem after_history {s : Switchboard α ρ} (h : s.Orderly) (steps : List (Step α ρ)) :
    s.after (s.history steps) = s.run steps := by
  induction steps generalizing s with
  | nil => rfl
  | cons t rest ih =>
    rw [history, after_append, after_trace h]
    exact ih (h.step t)

/-- A step leads to another state. -/
theorem reaches_step {s : Switchboard α ρ} (h : s.Orderly) (t : Step α ρ) :
    s.Reaches (s.step t).1 :=
  ⟨_, (after_trace h t).symm⟩

end VenueLink.Switchboard

import VenueLink.Proofs.Switchboard.Attempt

/-!
# The connection in tune

The link, the wire and the signals that are still to be handled each know a part of what has
become of the connection. They are in tune as long as no signal from elsewhere is handled: the
wire counts the attempts that the link counts, all that is outstanding is about connections that
the wire has had, and an attempt in progress is the latest one and not yet through.

## Main results

* `calm_handle`: a signal changes the phase of the link and nothing else about the connection.
* `Attuned.of_tries`, `Attuned.of_hear`: whatever a caller does in its turn keeps the connection
  in tune, and so does what the link hears from the wire.
-/

namespace VenueLink.Switchboard

open Exchange

variable {α ρ : Type}

/-! ### What is outstanding -/

/-- It is still to be told that the connection of a generation is open: the signal has been
taken in, or it is about to be, or a timer is set for it. -/
def Awaits (s : Switchboard α ρ) (g : Nat) : Prop :=
  .opened g ∈ s.inbox ∨ .announce g ∈ s.ready ∨ ∃ t ∈ s.timers, t.alarm = .announce g

/-- Something about the connection of a generation is still to be told. -/
def Outstanding (s : Switchboard α ρ) (g : Nat) : Prop :=
  (∃ x ∈ s.inbox, x.generation = g) ∨ .announce g ∈ s.ready ∨
    ∃ t ∈ s.timers, t.alarm = .announce g

/-- How often it is still to be told that the connection of a generation is open. -/
def heralds (s : Switchboard α ρ) (g : Nat) : Nat :=
  s.inbox.count (.opened g) + s.coming g

/-- It is still to be told that a connection is open exactly if it is so at least once. -/
theorem heralds_pos_iff {s : Switchboard α ρ} {g : Nat} : 0 < s.heralds g ↔ s.Awaits g := by
  rw [heralds, Nat.add_pos_iff_pos_or_pos, List.count_pos_iff, coming_pos_iff, Awaits]

/-- This is something that is still to be told. -/
theorem Awaits.outstanding {s : Switchboard α ρ} {g : Nat} (h : s.Awaits g) : s.Outstanding g :=
  h.imp_left fun hmem => ⟨_, hmem, rfl⟩

section Calm

variable {s s' : Switchboard α ρ} (h : Calm s s')
include h

/-- Where it is calm nothing that is still to be told is lost. -/
theorem Calm.awaits {g : Nat} : s.Awaits g → s'.Awaits g := by
  rintro (hin | hready | ⟨t, ht, ha⟩)
  · obtain ⟨more, heq, -⟩ := h.inbox
    exact .inl (heq ▸ List.mem_append_left _ hin)
  · exact .inr (coming_pos_iff.mp (h.coming_eq g ▸ coming_pos_iff.mpr (.inl hready)))
  · exact .inr (coming_pos_iff.mp (h.coming_eq g ▸ coming_pos_iff.mpr (.inr ⟨t, ht, ha⟩)))

/-- And only the latest connection comes to have something to tell. -/
theorem Calm.outstanding {g : Nat} :
    s'.Outstanding g → s.Outstanding g ∨ s.wire.connection = some g := by
  rintro (⟨x, hx, rfl⟩ | hready | ⟨t, ht, ha⟩)
  · obtain ⟨more, heq, hall⟩ := h.inbox
    rw [heq] at hx
    rcases List.mem_append.mp hx with hold | hnew
    · exact .inl (.inl ⟨x, hold, rfl⟩)
    · obtain ⟨g, p, hg, rfl⟩ := hall x hnew
      exact .inr hg
  · exact .inl (.inr (coming_pos_iff.mp (h.coming_eq g ▸ coming_pos_iff.mpr (.inl hready))))
  · exact .inl
      (.inr (coming_pos_iff.mp (h.coming_eq g ▸ coming_pos_iff.mpr (.inr ⟨t, ht, ha⟩))))

/-- What is told while the connection stays as it is are messages. -/
theorem Calm.heralds_eq (g : Nat) : s'.heralds g = s.heralds g := by
  obtain ⟨more, heq, hall⟩ := h.inbox
  have hnone : more.count (.opened g) = 0 := List.count_eq_zero.mpr fun hmem => by
    obtain ⟨k, payload, -, hmessage⟩ := hall _ hmem
    cases hmessage
  rw [heralds, heq, List.count_append, hnone, h.coming_eq, Nat.add_zero, heralds]

end Calm

/-- A task that becomes ready takes in no signal. -/
@[simp] theorem inbox_enqueue (s : Switchboard α ρ) (t : Task) :
    (s.enqueue t).inbox = s.inbox :=
  rfl

/-- It is ready then, like those that were. -/
theorem mem_ready_enqueue {s : Switchboard α ρ} {t u : Task} :
    u ∈ (s.enqueue t).ready ↔ u ∈ s.ready ∨ u = t := by
  rw [enqueue]
  dsimp only
  split
  · next ht => exact ⟨.inl, fun h => h.elim id fun heq => heq ▸ ht⟩
  · rw [List.mem_append, List.mem_singleton]

/-- Signals that are taken in announce nothing else. -/
theorem coming_hear (s : Switchboard α ρ) (signals : List Signal) (g : Nat) :
    (s.hear signals).coming g = s.coming g := by
  rw [hear]
  split
  · rfl
  · dsimp only
    split
    · rfl
    · exact (calm_enqueue _ fun _ heq => by cases heq).coming_eq g

/-- What is still to be told remains so when a task becomes ready. -/
theorem Awaits.enqueue {s : Switchboard α ρ} {g : Nat} (h : s.Awaits g) (t : Task) :
    (s.enqueue t).Awaits g := by
  rw [Awaits, inbox_enqueue, timers_enqueue]
  exact h.imp_right (.imp_left fun hready => mem_ready_enqueue.mpr (.inl hready))

/-- A task that announces a connection has that one to tell of. -/
theorem outstanding_enqueue {s : Switchboard α ρ} {g k : Nat}
    (h : (s.enqueue (.announce g)).Outstanding k) : s.Outstanding k ∨ k = g := by
  rw [Outstanding, inbox_enqueue, timers_enqueue] at h
  rcases h with hin | hready | htimer
  · exact .inl (.inl hin)
  · exact (mem_ready_enqueue.mp hready).imp (fun hold => .inr (.inl hold)) Task.announce.inj
  · exact .inl (.inr (.inr htimer))

/-- Signals that are taken in come behind those that were. -/
@[simp] theorem inbox_hear (s : Switchboard α ρ) (signals : List Signal) :
    (s.hear signals).inbox = s.inbox ++ signals := by
  rw [hear]
  split
  · next h => rw [List.isEmpty_iff.mp h, List.append_nil]
  · dsimp only
    split
    · rfl
    · exact inbox_enqueue _ _

/-- Each of them that tells of an open connection counts. -/
theorem heralds_hear (s : Switchboard α ρ) (signals : List Signal) (g : Nat) :
    (s.hear signals).heralds g = s.heralds g + signals.count (.opened g) := by
  rw [heralds, inbox_hear, List.count_append, coming_hear, heralds]
  omega

/-- No announcement becomes ready by signals. -/
theorem announce_mem_hear {s : Switchboard α ρ} {signals : List Signal} {g : Nat} :
    .announce g ∈ (s.hear signals).ready ↔ .announce g ∈ s.ready := by
  rw [hear]
  split
  · exact .rfl
  · dsimp only
    split
    · exact .rfl
    · exact mem_ready_enqueue.trans (or_iff_left (by simp))

/-- Callers that are woken do not touch the link. -/
theorem link_wakeWhere (s : Switchboard α ρ) (p : Caller α ρ → Bool) :
    (s.wakeWhere p).link = s.link := by
  have hfold : ∀ (l : List (Caller α ρ)) (s : Switchboard α ρ),
      (l.foldl (fun s c => s.enqueue (.caller c.id)) s).link = s.link := by
    intro l
    induction l with
    | nil => exact fun _ => rfl
    | cons c rest ih => exact fun s => (ih _).trans (s.link_enqueue _)
  exact hfold _ s

/-- Nor the wire. -/
theorem wire_wakeWhere (s : Switchboard α ρ) (p : Caller α ρ → Bool) :
    (s.wakeWhere p).wire = s.wire := by
  have hfold : ∀ (l : List (Caller α ρ)) (s : Switchboard α ρ),
      (l.foldl (fun s c => s.enqueue (.caller c.id)) s).wire = s.wire := by
    intro l
    induction l with
    | nil => exact fun _ => rfl
    | cons c rest ih => exact fun s => (ih _).trans (s.wire_enqueue _)
  exact hfold _ s

/-- An attempt that is given up is known to the link. -/
theorem link_abandon (s : Switchboard α ρ) (g : Nat) :
    (s.abandon g).link = s.link.abandon g := by
  rw [abandon]
  split
  · next heq => exact heq.symm
  · exact link_wakeWhere _ _

/-- But not to the wire. -/
theorem wire_abandon (s : Switchboard α ρ) (g : Nat) : (s.abandon g).wire = s.wire := by
  rw [abandon]
  split
  · rfl
  · exact wire_wakeWhere _ _

/-- Nothing gets lost when signals are taken in. -/
theorem Awaits.hear {s : Switchboard α ρ} {g : Nat} (h : s.Awaits g) (signals : List Signal) :
    (s.hear signals).Awaits g := by
  refine h.imp (fun hin => ?_) (.imp announce_mem_hear.mpr fun htimer => ?_)
  · rw [inbox_hear]
    exact List.mem_append_left _ hin
  · rwa [timers_hear]

/-- Signals have their own connections to tell of. -/
theorem outstanding_hear {s : Switchboard α ρ} {signals : List Signal} {g : Nat}
    (h : (s.hear signals).Outstanding g) :
    s.Outstanding g ∨ ∃ x ∈ signals, x.generation = g := by
  rcases h with ⟨x, hx, hg⟩ | hready | htimer
  · rw [inbox_hear] at hx
    rcases List.mem_append.mp hx with hold | hnew
    · exact .inl (.inl ⟨x, hold, hg⟩)
    · exact .inr ⟨x, hnew, hg⟩
  · exact .inl (.inr (.inl (announce_mem_hear.mp hready)))
  · exact .inl (.inr (.inr (timers_hear s signals ▸ htimer)))

/-- It is still to be told that a connection has gone through. -/
theorem awaits_announce (s : Switchboard α ρ) (g : Nat) : (s.announce g).Awaits g := by
  rw [announce]
  split
  · refine .inl ?_
    rw [inbox_hear]
    exact List.mem_append_right _ (List.mem_singleton.mpr rfl)
  · exact .inr (.inr ⟨_, List.mem_append_right _ (List.mem_singleton.mpr rfl), rfl⟩)

/-- So has an announcement. -/
theorem outstanding_announce {s : Switchboard α ρ} {g k : Nat}
    (h : (s.announce g).Outstanding k) : s.Outstanding k ∨ k = g := by
  rw [announce] at h
  split at h
  · refine (outstanding_hear h).imp_right ?_
    rintro ⟨x, hx, rfl⟩
    rw [List.mem_singleton.mp hx]
    rfl
  · rcases h with hin | hready | ⟨t, ht, ha⟩
    · exact .inl (.inl hin)
    · exact .inl (.inr (.inl hready))
    · rcases List.mem_append.mp ht with hold | hnew
      · exact .inl (.inr (.inr ⟨t, hold, ha⟩))
      · rw [List.mem_singleton.mp hnew] at ha
        cases ha
        exact .inr rfl

/-! ### Signals -/

/-- News of an earlier connection is passed over. -/
theorem handle_of_ne {s : Switchboard α ρ} {x : Signal} (h : x.generation ≠ s.link.generation) :
    s.handle x = s := by
  simp only [handle, if_pos h]

/-- A message of the latest connection is offered to the open exchanges. -/
theorem handle_message (s : Switchboard α ρ) (payload : Json) :
    s.handle (.message s.link.generation payload) = s.dispatch payload := by
  rw [handle, if_neg (by simp [Signal.generation])]

/-- The handshake does not touch the link. -/
theorem link_greet (s : Switchboard α ρ) : s.greet.link = s.link := by
  rw [greet]
  split
  · rfl
  · split
    · rw [link_hear]
    · rfl

/-- News that the latest connection is open is followed by the handshake. -/
theorem handle_opened (s : Switchboard α ρ) :
    s.handle (.opened s.link.generation) =
      ({ s.greet with link := { s.link with phase := .opened } } : Switchboard α
        ρ).wakeOpening := by
  have hopened : s.link.opened s.link.generation = { s.link with phase := .opened } :=
    if_pos rfl
  rw [handle, if_neg (by simp [Signal.generation])]
  dsimp only
  rw [link_greet, hopened]

/-- News that it is closed fails all open exchanges. -/
theorem handle_closed (s : Switchboard α ρ) (reason : String) :
    s.handle (.closed s.link.generation reason) =
      ({ s with link := { s.link with phase := .closed } } : Switchboard α
        ρ).wakeOpening.failAll := by
  have hclosed : s.link.closed s.link.generation = { s.link with phase := .closed } :=
    if_pos rfl
  rw [handle, if_neg (by simp [Signal.generation])]
  dsimp only
  rw [hclosed]

/-- The handshake does not depend on the phase of the link. -/
theorem greet_phase (s : Switchboard α ρ) (phase : Link.Phase) :
    ({ s with link := { s.link with phase := phase } } : Switchboard α ρ).greet =
      { s.greet with link := { s.link with phase := phase } } := by
  simp only [greet, hear, enqueue]
  split
  · rfl
  · split
    · split
      · rfl
      · split
        · rfl
        · split <;> rfl
    · rfl

/-- When the link hears that its connection is open, nothing but its phase changes. -/
theorem calm_handle_opened (s : Switchboard α ρ) :
    Calm ({ s with link := { s.link with phase := .opened } } : Switchboard α ρ)
      (s.handle (.opened s.link.generation)) := by
  rw [handle_opened, ← greet_phase]
  exact (calm_greet rfl).trans (calm_wakeWhere _ _)

/-- When the link hears that its connection is closed, nothing but its phase changes. -/
theorem calm_handle_closed (s : Switchboard α ρ) (reason : String) :
    Calm ({ s with link := { s.link with phase := .closed } } : Switchboard α ρ)
      (s.handle (.closed s.link.generation reason)) := by
  rw [handle_closed]
  exact (calm_wakeWhere _ _).trans (calm_failAll _)

/-- The phase of a link of generation `g` once it has heard a signal. -/
def phaseAfter (g : Nat) (phase : Link.Phase) : Signal → Link.Phase
  | .opened k => if k = g then .opened else phase
  | .closed k _ => if k = g then .closed else phase
  | .message _ _ => phase

/-- News of another generation does not matter. -/
theorem phaseAfter_of_ne {g : Nat} {x : Signal} (h : x.generation ≠ g) (phase : Link.Phase) :
    phaseAfter g phase x = phase := by
  cases x with
  | message k payload => rfl
  | opened k => exact if_neg h
  | closed k reason => exact if_neg h

/-- Handling a signal changes nothing about the connection but the phase of the link. -/
theorem calm_handle (s : Switchboard α ρ) (x : Signal) :
    Calm ({ s with
      link := { s.link with phase := phaseAfter s.link.generation s.link.phase x } } :
        Switchboard α ρ)
      (s.handle x) := by
  by_cases hx : x.generation = s.link.generation
  · cases x with
    | message g payload =>
      obtain rfl : g = s.link.generation := hx
      rw [handle_message]
      exact s.calm_dispatch payload
    | opened g =>
      obtain rfl : g = s.link.generation := hx
      rw [phaseAfter, if_pos rfl]
      exact s.calm_handle_opened
    | closed g reason =>
      obtain rfl : g = s.link.generation := hx
      rw [phaseAfter, if_pos rfl]
      exact s.calm_handle_closed reason
  · rw [handle_of_ne hx, phaseAfter_of_ne hx]
    exact .refl s

/-- Signals start no connection. -/
theorem generation_handle (s : Switchboard α ρ) (x : Signal) :
    (s.handle x).link.generation = s.link.generation :=
  (s.calm_handle x).generation_eq

/-- The phase of the link after a signal. -/
theorem phase_handle (s : Switchboard α ρ) (x : Signal) :
    (s.handle x).link.phase = phaseAfter s.link.generation s.link.phase x :=
  (s.calm_handle x).phase_eq

/-! ### The connection in tune -/

/-- The connection is in tune while a caller is making the attempt `a`, and others are making
those of `others`. -/
structure Attuned (others : Nat → Prop) (a : Option Nat) (s : Switchboard α ρ) : Prop where
  connects_eq : s.wire.connects = s.link.generation
  connection_le : ∀ g, s.wire.connection = some g → g ≤ s.link.generation
  outstanding_le : ∀ g, s.Outstanding g → ∃ latest, s.wire.connection = some latest ∧ g ≤ latest
  opened : s.link.phase = .opened → s.wire.connection = some s.link.generation
  attempt : ∀ g, a = some g ∨ others g →
    g = s.link.generation ∧ s.link.phase = .connecting ∧ s.wire.connection ≠ some g
  single : a ≠ none → ∀ g, ¬others g
  connecting : s.link.phase = .connecting →
    (a = some s.link.generation ∨ others s.link.generation) ∨ s.Awaits s.link.generation

section Attuned

variable {others : Nat → Prop} {a : Option Nat} {s s' : Switchboard α ρ}

/-- The phase stays, and nothing that is still to be told gets lost. -/
theorem Attuned.of_eq (h : Attuned others a s) (hphase : s'.link.phase = s.link.phase)
    (hgeneration : s'.link.generation = s.link.generation)
    (hconnection : s'.wire.connection = s.wire.connection)
    (hconnects : s'.wire.connects = s.wire.connects)
    (hout : ∀ g, s'.Outstanding g → s.Outstanding g ∨ s.wire.connection = some g)
    (hawaits : s.Awaits s.link.generation → s'.Awaits s.link.generation) :
    Attuned others a s' where
  connects_eq := by rw [hconnects, hgeneration, h.connects_eq]
  connection_le := by
    rw [hconnection, hgeneration]
    exact h.connection_le
  outstanding_le g hg := by
    rw [hconnection]
    rcases hout g hg with hold | hnew
    · exact h.outstanding_le g hold
    · exact ⟨g, hnew, Nat.le_refl g⟩
  opened := by
    rw [hphase, hconnection, hgeneration]
    exact h.opened
  attempt := by
    rw [hphase, hconnection, hgeneration]
    exact h.attempt
  single := h.single
  connecting := by
    rw [hphase, hgeneration]
    exact fun hc => (h.connecting hc).imp_right hawaits

/-- Where it is calm the connection stays in tune. -/
theorem Attuned.of_calm (h : Attuned others a s) (hcalm : Calm s s') : Attuned others a s' :=
  h.of_eq hcalm.phase_eq hcalm.generation_eq hcalm.connection_eq hcalm.connects_eq
    (fun _ => hcalm.outstanding) hcalm.awaits

/-- What is outstanding of the latest generation is about the connection that the wire has. -/
theorem Attuned.connection_of_outstanding (h : Attuned others a s)
    (hout : s.Outstanding s.link.generation) : s.wire.connection = some s.link.generation := by
  obtain ⟨latest, hlatest, hle⟩ := h.outstanding_le _ hout
  rw [hlatest, Nat.le_antisymm (h.connection_le latest hlatest) hle]

/-- Once the wire has the latest connection, no attempt is in progress. -/
theorem Attuned.no_attempt (h : Attuned others a s)
    (hon : s.wire.connection = some s.link.generation) (g : Nat) :
    ¬(a = some g ∨ others g) := by
  intro hg
  obtain ⟨rfl, -, hne⟩ := h.attempt g hg
  exact hne hon

/-- A connection that the wire has had is older than the attempt in progress. -/
theorem Attuned.connection_lt {g : Nat} (h : Attuned others (some g) s) {latest : Nat}
    (hlatest : s.wire.connection = some latest) : latest < g := by
  obtain ⟨hg, -, hnew⟩ := h.attempt g (.inl rfl)
  exact Nat.lt_of_le_of_ne (hg ▸ h.connection_le latest hlatest) fun heq => hnew (heq ▸ hlatest)

/-- The link learns what has become of the latest connection. -/
theorem Attuned.of_news (h : Attuned others none s)
    (hon : s.wire.connection = some s.link.generation) (hphase : s'.link.phase ≠ .connecting)
    (hgeneration : s'.link.generation = s.link.generation)
    (hconnection : s'.wire.connection = s.wire.connection)
    (hconnects : s'.wire.connects = s.wire.connects)
    (hout : ∀ g, s'.Outstanding g → s.Outstanding g ∨ s.wire.connection = some g) :
    Attuned others none s' where
  connects_eq := by rw [hconnects, hgeneration, h.connects_eq]
  connection_le := by
    rw [hconnection, hgeneration]
    exact h.connection_le
  outstanding_le g hg := by
    rw [hconnection]
    rcases hout g hg with hold | hnew
    · exact h.outstanding_le g hold
    · exact ⟨g, hnew, Nat.le_refl g⟩
  opened _ := by rw [hconnection, hgeneration, hon]
  attempt g hg := absurd hg (h.no_attempt hon g)
  single := h.single
  connecting hc := absurd hc hphase

/-- What is outstanding without the first signal was outstanding with it. -/
theorem outstanding_of_tail {x : Signal} {rest : List Signal} (hin : s.inbox = x :: rest)
    {l : Link} {g : Nat}
    (h : ({ s with inbox := rest, link := l } : Switchboard α ρ).Outstanding g) :
    s.Outstanding g := by
  refine h.imp_left ?_
  rintro ⟨y, hy, hg⟩
  exact ⟨y, hin ▸ List.mem_cons_of_mem _ hy, hg⟩

/-- The link hears the first signal of the wire. -/
theorem Attuned.of_hear (h : Attuned others none s) {x : Signal} {rest : List Signal}
    (hin : s.inbox = x :: rest) :
    Attuned others none ({ s with
      inbox := rest
      link := { s.link with phase := phaseAfter s.link.generation s.link.phase x } } :
      Switchboard α ρ) := by
  have hout :
      ∀ {l : Link} g, ({ s with inbox := rest, link := l } : Switchboard α ρ).Outstanding g →
      s.Outstanding g ∨ s.wire.connection = some g :=
        fun _ hg => .inl (outstanding_of_tail hin hg)
  -- a signal that does not change the phase is not the one that a connecting link waits for
  have hskip : phaseAfter s.link.generation s.link.phase x = s.link.phase →
      x ≠ .opened s.link.generation → Attuned others none ({ s with
        inbox := rest
        link := { s.link with phase := phaseAfter s.link.generation s.link.phase x } } :
        Switchboard α ρ) := by
    intro hphase hx
    refine h.of_eq hphase rfl rfl rfl hout fun hawaits => hawaits.imp_left fun hmem => ?_
    rw [hin] at hmem
    exact (List.mem_cons.mp hmem).resolve_left hx.symm
  by_cases hx : x.generation = s.link.generation
  · have hon := h.connection_of_outstanding (.inl ⟨x, hin ▸ List.mem_cons_self, hx⟩)
    cases x with
    | message g payload => exact hskip rfl fun heq => by cases heq
    | opened g =>
      refine h.of_news hon ?_ rfl rfl rfl hout
      rw [phaseAfter, if_pos (show g = s.link.generation from hx)]
      simp
    | closed g reason =>
      refine h.of_news hon ?_ rfl rfl rfl hout
      rw [phaseAfter, if_pos (show g = s.link.generation from hx)]
      simp
  · exact hskip (phaseAfter_of_ne hx _) fun heq => hx (heq ▸ rfl)

/-- A caller starts an attempt on a link that is closed. -/
theorem Attuned.of_attempt (h : Attuned others none s) (hclosed : s.link.phase = .closed) :
    Attuned others (some (s.link.generation + 1))
      { s with link := s.link.attempt, wire := s.wire.attempt } := by
  have hnone : ∀ g, ¬others g := fun g hg => by
    have := (h.attempt g (.inr hg)).2.1
    rw [hclosed] at this
    cases this
  refine ⟨congrArg (· + 1) h.connects_eq, fun g hg => Nat.le_succ_of_le (h.connection_le g hg),
    h.outstanding_le, fun hc => (by cases hc), fun g hg => ?_, fun _ => hnone,
    fun _ => .inl (.inl rfl)⟩
  rcases hg with heq | hg
  · cases heq
    refine ⟨rfl, rfl, fun hon => ?_⟩
    exact absurd (h.connection_le _ hon) (Nat.not_succ_le_self _)
  · exact absurd hg (hnone g)

/-- A caller gives its attempt up. -/
theorem Attuned.of_abandon {g : Nat} (h : Attuned others (some g) s) :
    Attuned others none (s.abandon g) := by
  obtain ⟨hg, hphase, -⟩ := h.attempt g (.inl rfl)
  have hnone := h.single (by simp)
  have hlink : s.link.abandon g = { s.link with phase := .closed } := if_pos ⟨hg, hphase⟩
  have hne : s.link.abandon g ≠ s.link := fun heq => by
    rw [hlink] at heq
    have := congrArg Link.phase heq
    rw [hphase] at this
    cases this
  have hclosed : Attuned others none { s with link := s.link.abandon g } := by
    rw [hlink]
    exact ⟨h.connects_eq, h.connection_le, h.outstanding_le, fun hc => (by cases hc),
      fun g hg => absurd (hg.resolve_left (by simp)) (hnone g), fun ha => absurd rfl ha,
      fun hc => by cases hc⟩
  rw [abandon, if_neg hne]
  exact hclosed.of_calm (calm_wakeWhere _ _)

/-- The attempt of a caller goes through. -/
theorem Attuned.of_connect {g : Nat} (h : Attuned others (some g) s) :
    Attuned others none
      ({ s with wire := { s.wire with connection := some g, isOpen := true } }.announce g) := by
  obtain ⟨hg, hphase, -⟩ := h.attempt g (.inl rfl)
  have hnone := h.single (by simp)
  refine ⟨?_, fun k hk => ?_, fun k hk => ?_, fun hc => ?_, fun k hk => ?_,
    fun ha => absurd rfl ha, fun _ => .inr ?_⟩
  · rw [wire_announce, link_announce]
    exact h.connects_eq
  · rw [wire_announce] at hk
    rw [link_announce]
    cases hk
    exact Nat.le_of_eq hg
  · rw [wire_announce]
    rcases outstanding_announce hk with hold | rfl
    · obtain ⟨latest, hlatest, hle⟩ := h.outstanding_le k hold
      exact ⟨g, rfl, Nat.le_trans hle (hg ▸ h.connection_le latest hlatest)⟩
    · exact ⟨k, rfl, Nat.le_refl k⟩
  · rw [link_announce] at hc
    rw [hphase] at hc
    cases hc
  · exact absurd (hk.resolve_left (by simp)) (hnone k)
  · rw [link_announce, ← hg]
    exact awaits_announce _ g

/-- Whatever a caller does in its turn keeps the connection in tune. -/
theorem Attuned.of_tries {b : Option Nat} (h : Attuned others a s) (htries : Tries a s b s') :
    Attuned others b s' := by
  induction htries with
  | calm hcalm => exact h.of_calm hcalm
  | attempt hclosed => exact h.of_attempt hclosed
  | abandon s g => exact h.of_abandon
  | connect s g => exact h.of_connect
  | trans _ _ ih₁ ih₂ => exact ih₂ (ih₁ h)

end Attuned

/-! ### What is sent -/

section Sent

variable {others : Nat → Prop} {a b : Option Nat} {s s' : Switchboard α ρ}

/-- What is sent while the connection stays as it is goes over that connection, while the link
is open. -/
theorem Calm.sent_cases (h : Calm s s')
    (hon : s'.link.phase = .opened → s'.wire.connection = some s'.link.generation) {x : Sent}
    (hx : x ∈ s'.wire.sent) :
    x ∈ s.wire.sent ∨ s'.link.phase = .opened ∧ x.generation = s'.link.generation := by
  obtain ⟨more, heq, hall⟩ := h.sent
  rw [heq] at hx
  refine (List.mem_append.mp hx).imp_right fun hnew => ?_
  obtain ⟨hgeneration, hopen⟩ := hall x hnew
  have hopen' := h.phase_eq.trans hopen
  have hconnection := hon hopen'
  rw [h.connection_eq] at hconnection
  rw [hgeneration, hconnection]
  exact ⟨hopen', rfl⟩

/-- A caller in its turn leaves an open connection as it is. -/
theorem Tries.calm_of_opened (h : Tries a s b s') (ha : Attuned others a s)
    (hopen : s.link.phase = .opened) : Calm s s' := by
  -- an attempt is made on a link that is connecting
  have hno : ∀ {g : Nat} {s : Switchboard α ρ}, Attuned others (some g) s →
      s.link.phase = .opened →
      False := fun ha hopen => by
    rw [(ha.attempt _ (.inl rfl)).2.1] at hopen
    cases hopen
  induction h with
  | calm hcalm => exact hcalm
  | attempt hclosed =>
    rw [hclosed] at hopen
    cases hopen
  | abandon s g => exact (hno ha hopen).elim
  | connect s g => exact (hno ha hopen).elim
  | trans h₁ _ ih₁ ih₂ =>
    have hcalm := ih₁ ha hopen
    exact hcalm.trans (ih₂ (ha.of_tries h₁) (hcalm.phase_eq.trans hopen))

/-- A caller in its turn sends frames only on an open link. -/
theorem Tries.sent (h : Tries a s b s') (ha : Attuned others a s) {x : Sent}
    (hx : x ∈ s'.wire.sent) :
    x ∈ s.wire.sent ∨ s'.link.phase = .opened ∧ x.generation = s'.link.generation := by
  induction h with
  | calm hcalm => exact hcalm.sent_cases (ha.of_calm hcalm).opened hx
  | attempt hclosed => exact .inl hx
  | abandon s g => exact .inl (s.wire_abandon g ▸ hx)
  | connect s g =>
    rw [wire_announce] at hx
    exact .inl hx
  | trans h₁ h₂ ih₁ ih₂ =>
    rcases ih₂ (ha.of_tries h₁) hx with hold | hnew
    · refine (ih₁ ha hold).imp_right ?_
      rintro ⟨hopen, hgeneration⟩
      have hcalm := h₂.calm_of_opened (ha.of_tries h₁) hopen
      exact ⟨hcalm.phase_eq.trans hopen, hgeneration.trans hcalm.generation_eq.symm⟩
    · exact .inr hnew

end Sent

end VenueLink.Switchboard

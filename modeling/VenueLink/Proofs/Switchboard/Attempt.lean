import VenueLink.Proofs.Switchboard.Motion

/-!
# Attempts to connect

A caller that finds the link closed starts an attempt to connect. The attempt is its own until
it goes through, is refused, or is given up. `Tries a s b s'` lists all that a caller does to
the connection in a turn: it was making the attempt `a` at `s`, and is making the attempt `b` at
`s'`. Most of the time the connection stays as it is, which is what `Calm` says.

## Main results

* `goes_tend`, `goes_pursue`: the turn of a caller, and the one in which it starts on a plan,
  are made of such parts.
* `attended_stride`, `attended_begin`: a caller that is making an attempt at the end of its turn
  has a timer that ends its pause.
-/

namespace VenueLink

open Exchange

variable {α ρ : Type}

/-- The attempt to connect that a caller at a stage is making. -/
def Stage.attempt? : Stage → Option Nat
  | connecting generation _ => some generation
  | _ => none

namespace Switchboard

/-- The attempt that a caller is left with. -/
def Access.attempt? : Access → Option Nat
  | .blocked stage => stage.attempt?
  | _ => none

/-- The attempt that a caller is left with. -/
def Delivery.attempt? : Delivery → Option Nat
  | .blocked stage => stage.attempt?
  | _ => none

/-! ### While the connection stays as it is -/

/-- How often it is about to be told that the connection of a generation is open: the task for
that is ready, or a timer is set for it. -/
def coming (s : Switchboard α ρ) (g : Nat) : Nat :=
  s.ready.count (.announce g) + s.timers.countP (·.alarm = .announce g)

/-- A connection is about to be announced exactly if the task for that is ready, or a timer is
set for it. -/
theorem coming_pos_iff {s : Switchboard α ρ} {g : Nat} :
    0 < s.coming g ↔ .announce g ∈ s.ready ∨ ∃ t ∈ s.timers, t.alarm = .announce g := by
  rw [coming, Nat.add_pos_iff_pos_or_pos, List.count_pos_iff, List.countP_pos_iff]
  simp

/-- Between `s` and `s'` the connection stays as it is, and what it tells are messages. Frames
are sent only while the link is open, and go over the latest connection. -/
structure Calm (s s' : Switchboard α ρ) : Prop where
  phase_eq : s'.link.phase = s.link.phase
  generation_eq : s'.link.generation = s.link.generation
  connection_eq : s'.wire.connection = s.wire.connection
  isOpen_eq : s'.wire.isOpen = s.wire.isOpen
  connects_eq : s'.wire.connects = s.wire.connects
  inbox : ∃ more, s'.inbox = s.inbox ++ more ∧
    ∀ x ∈ more, ∃ g p, s.wire.connection = some g ∧ x = .message g p
  coming_eq : ∀ g, s'.coming g = s.coming g
  sent : ∃ more, s'.wire.sent = s.wire.sent ++ more ∧ ∀ x ∈ more,
    x.generation = s.wire.connection.getD 0 ∧ s.link.phase = .opened

/-- Where nothing happens it is calm. -/
theorem Calm.refl (s : Switchboard α ρ) : Calm s s :=
  ⟨rfl, rfl, rfl, rfl, rfl, ⟨[], by simp⟩, fun _ => rfl, ⟨[], by simp⟩⟩

/-- Two calm stretches one after the other. -/
theorem Calm.trans {s₁ s₂ s₃ : Switchboard α ρ} (h₁ : Calm s₁ s₂) (h₂ : Calm s₂ s₃) :
    Calm s₁ s₃ where
  phase_eq := h₂.phase_eq.trans h₁.phase_eq
  generation_eq := h₂.generation_eq.trans h₁.generation_eq
  connection_eq := h₂.connection_eq.trans h₁.connection_eq
  isOpen_eq := h₂.isOpen_eq.trans h₁.isOpen_eq
  connects_eq := h₂.connects_eq.trans h₁.connects_eq
  inbox := exists_append_trans h₁.inbox h₂.inbox fun hall₁ hall₂ =>
    List.forall_mem_append.mpr ⟨hall₁, h₁.connection_eq ▸ hall₂⟩
  coming_eq g := (h₂.coming_eq g).trans (h₁.coming_eq g)
  sent := by
    refine exists_append_trans h₁.sent h₂.sent fun hall₁ hall₂ =>
      List.forall_mem_append.mpr ⟨hall₁, ?_⟩
    rwa [← h₁.connection_eq, ← h₁.phase_eq]

/-- A change to what has nothing to do with the connection. -/
theorem calm_of_eq {s s' : Switchboard α ρ} (hlink : s'.link = s.link)
    (hwire : s'.wire = s.wire) (hinbox : s'.inbox = s.inbox) (hready : s'.ready = s.ready)
    (htimers : s'.timers = s.timers) : Calm s s' where
  phase_eq := hlink ▸ rfl
  generation_eq := hlink ▸ rfl
  connection_eq := hwire ▸ rfl
  isOpen_eq := hwire ▸ rfl
  connects_eq := hwire ▸ rfl
  inbox := ⟨[], by simp [hinbox]⟩
  coming_eq g := by rw [coming, hready, htimers, coming]
  sent := ⟨[], by simp [hwire]⟩

/-- Other tasks are ready, but the connections about to be announced are the same. -/
theorem calm_ready (s : Switchboard α ρ) {tasks : List Task}
    (h : ∀ g, tasks.count (.announce g) = s.ready.count (.announce g)) :
    Calm s { s with ready := tasks } :=
  { Calm.refl s with coming_eq := fun g => congrArg (· + _) (h g) }

/-- A task that announces no connection becomes ready. -/
theorem calm_enqueue (s : Switchboard α ρ) {t : Task} (ht : ∀ g, t ≠ .announce g) :
    Calm s (s.enqueue t) := by
  rw [enqueue]
  split
  · exact .refl s
  · refine s.calm_ready fun g => ?_
    rw [List.count_append, List.count_singleton, if_neg (by simpa using ht g), Nat.add_zero]

/-- Callers are woken one by one. -/
theorem calm_foldl_enqueue (l : List (Caller α ρ)) (s : Switchboard α ρ) :
    Calm s (l.foldl (fun s c => s.enqueue (.caller c.id)) s) := by
  induction l generalizing s with
  | nil => exact .refl s
  | cons c rest ih => exact (s.calm_enqueue fun _ h => by cases h).trans (ih _)

/-- Callers are woken. -/
theorem calm_wakeWhere (s : Switchboard α ρ) (p : Caller α ρ → Bool) : Calm s (s.wakeWhere p) :=
  calm_foldl_enqueue _ s

/-- Those who wait for exchanges that have ended are woken. -/
theorem calm_foldl_wakeWaiting (l : List Nat) (s : Switchboard α ρ) :
    Calm s (l.foldl wakeWaiting s) := by
  induction l generalizing s with
  | nil => exact .refl s
  | cons id rest ih => exact (s.calm_wakeWhere _).trans (ih _)

/-- Messages of the latest connection are taken in. -/
theorem calm_hear (s : Switchboard α ρ) {signals : List Signal}
    (h : ∀ x ∈ signals, ∃ g p, s.wire.connection = some g ∧ x = .message g p) :
    Calm s (s.hear signals) := by
  rw [hear]
  split
  · exact .refl s
  · have hinbox : Calm s { s with inbox := s.inbox ++ signals } :=
      { Calm.refl s with inbox := ⟨signals, rfl, h⟩ }
    dsimp only
    split
    · exact hinbox
    · exact hinbox.trans (calm_enqueue _ fun _ h => by cases h)

/-- A timer is set that announces no connection. -/
theorem calm_arm (s : Switchboard α ρ) (duration : Nat) {alarm : Alarm}
    (ha : ∀ g, alarm ≠ .announce g) : Calm s (s.arm duration alarm) :=
  { Calm.refl s with
    coming_eq := fun g => by
      have hno : ¬alarm = .announce g := ha g
      simp [coming, arm, hno] }

/-- A caller takes back its timer. -/
theorem calm_disarm (s : Switchboard α ρ) (k : Nat) : Calm s (s.disarm k) :=
  { Calm.refl s with
    coming_eq := fun g => by
      rw [coming, coming, disarm, List.countP_filter]
      congr 2
      funext t
      by_cases ht : t.alarm = .announce g <;> simp [ht, Alarm.caller?] }

/-- A caller is kept. -/
theorem calm_keep (s : Switchboard α ρ) (c : Caller α ρ) : Calm s (s.keep c) :=
  calm_of_eq rfl rfl rfl rfl rfl

/-- A caller goes. -/
theorem calm_dismiss (s : Switchboard α ρ) (k : Nat) : Calm s (s.dismiss k) :=
  (s.calm_disarm k).trans (calm_of_eq rfl rfl rfl rfl rfl)

/-- A caller answers and goes. -/
theorem calm_finish (s : Switchboard α ρ) (k : Nat) (label : String) (r : ρ) :
    Calm s (s.finish k label r) :=
  (s.calm_dismiss k).trans (calm_of_eq rfl rfl rfl rfl rfl)

/-- Something happens to exchanges. -/
theorem calm_correlator (s : Switchboard α ρ) (c : Correlator α) :
    Calm s { s with correlator := c } :=
  calm_of_eq rfl rfl rfl rfl rfl

/-- An exchange is registered. -/
theorem calm_register (s : Switchboard α ρ) (m : Matcher α) (timeout : Nat) :
    Calm s (s.register m timeout) :=
  (s.calm_correlator _).trans (calm_enqueue _ fun _ h => by cases h)

/-- A message is offered to the exchanges. -/
theorem calm_dispatch (s : Switchboard α ρ) (m : Json) : Calm s (s.dispatch m) := by
  have hended : Calm s { s with
      correlator := (s.correlator.dispatch s.now m).1
      wire := { s.wire with
        pruned := s.wire.pruned ++ (s.correlator.dispatch s.now m).2.pruned } } :=
    { Calm.refl s with }
  exact hended.trans (calm_foldl_wakeWaiting _ _)

/-- All open exchanges fail. -/
theorem calm_failAll (s : Switchboard α ρ) : Calm s s.failAll :=
  (s.calm_correlator _).trans (calm_foldl_wakeWaiting _ _)

/-- What the venue replies are messages over the latest connection. -/
theorem mem_replies {w : Wire} {frame : Json} {x : Signal}
    (h : x ∈ (w.replies frame).flatMap w.deliver) :
    ∃ g p, w.connection = some g ∧ x = .message g p := by
  obtain ⟨p, -, hx⟩ := List.mem_flatMap.mp h
  obtain ⟨g, hg, rfl⟩ := List.mem_map.mp hx
  exact ⟨g, p, Option.mem_toList.mp hg, rfl⟩

/-- A frame is sent, and its replies are taken in. -/
theorem calm_send {s : Switchboard α ρ} {exchange : Option Nat} {frame : Json} {w : Wire}
    {signals : List Signal} (h : s.wire.send s.now exchange frame = .ok (w, signals))
    (hopen : s.link.phase = .opened) :
    Calm s ({ s with wire := w }.hear signals) := by
  rw [Wire.send] at h
  split at h
  · cases h
    have hsent : Calm s { s with
        wire := { s.wire with
          sent := s.wire.sent ++ [⟨frame, s.now, s.wire.connection.getD 0, exchange⟩] } } :=
      { Calm.refl s with
        sent := ⟨_, rfl, fun x hx => by
          obtain rfl := List.mem_singleton.mp hx
          exact ⟨rfl, hopen⟩⟩ }
    exact hsent.trans (calm_hear _ fun x hx => mem_replies hx)
  · cases h

/-- A link that is open is in the phase of that. -/
theorem phase_of_isOpen {l : Link} (h : l.isOpen) : l.phase = .opened := by
  simpa [Link.isOpen] using h

/-- A frame is sent. -/
theorem calm_transmit {s s' : Switchboard α ρ} {exchange : Option Nat} {frame : Json}
    (h : s.transmit exchange frame = .ok s') : Calm s s' := by
  obtain ⟨hopen, w, signals, hsend, rfl⟩ := exists_send_of_transmit h
  exact calm_send hsend (phase_of_isOpen hopen)

/-- The handshake is sent over an open link. -/
theorem calm_greet {s : Switchboard α ρ} (hopen : s.link.phase = .opened) : Calm s s.greet := by
  rw [greet]
  split
  · exact .refl s
  · split
    · next h => exact calm_send h hopen
    · exact .refl s

/-- A request is sent, or fails its exchange. -/
theorem calm_request (s : Switchboard α ρ) (exchange : Nat) (spec : Spec α) :
    Calm s (s.request exchange spec).1 := by
  rw [request]
  split
  · next h => exact calm_transmit h
  · exact .refl s

/-- Seeing to the handshake and the request. -/
theorem calm_authenticate (s : Switchboard α ρ) (k exchange : Nat) (spec : Spec α)
    (readiness : Readiness) : Calm s (s.authenticate k exchange spec readiness).1 :=
  authenticate_of_motions .refl .trans (fun _ h => calm_transmit h) (fun h => calm_transmit h)
    (fun s _ => s.calm_arm _ fun _ h => by cases h) s readiness

/-- Whoever has access is not trying to connect. -/
theorem attempt?_authenticate (s : Switchboard α ρ) (k exchange : Nat) (spec : Spec α)
    (readiness : Readiness) : (s.authenticate k exchange spec readiness).2.attempt? = none := by
  have hrequest : ∀ s : Switchboard α ρ, (s.request exchange spec).2.attempt? = none := by
    intro s
    rw [request]
    split <;> rfl
  have hpause : ∀ s : Switchboard α ρ,
      (authenticate.pause k exchange spec s).2.attempt? = none := by
    intro s
    rw [authenticate.pause]
    split
    · exact hrequest s
    · rfl
  rw [authenticate]
  split
  · exact hrequest s
  · split
    · exact hpause s
    · split
      · exact hpause _
      · rfl

/-! ### What a caller does to the connection -/

/-- A caller that was making the attempt `a` goes on from `s` to `s'`, where it is making the
attempt `b`: it leaves the connection alone, or starts an attempt on a link that is closed, or
its attempt is given up or goes through. -/
inductive Tries : Option Nat → Switchboard α ρ → Option Nat → Switchboard α ρ → Prop
  | calm {a : Option Nat} {s s' : Switchboard α ρ} (h : Calm s s') : Tries a s a s'
  | attempt {s : Switchboard α ρ} (h : s.link.phase = .closed) :
    Tries none s (some (s.link.generation + 1))
      { s with link := s.link.attempt, wire := s.wire.attempt }
  | abandon (s : Switchboard α ρ) (g : Nat) : Tries (some g) s none (s.abandon g)
  | connect (s : Switchboard α ρ) (g : Nat) :
    Tries (some g) s none
      ({ s with wire := { s.wire with connection := some g, isOpen := true } }.announce g)
  | trans {a b c : Option Nat} {s₁ s₂ s₃ : Switchboard α ρ} (h₁ : Tries a s₁ b s₂)
    (h₂ : Tries b s₂ c s₃) : Tries a s₁ c s₃

/-- Whoever waits for the link to open makes no attempt. -/
theorem attempt?_awaitOpen (s : Switchboard α ρ) : s.awaitOpen.attempt? = none := by
  rw [awaitOpen]
  split <;> rfl

/-- After an attempt has gone through or was refused, the caller is not making one. -/
theorem attempt?_connect (s : Switchboard α ρ) (g : Nat) : (s.connect g).2.attempt? = none := by
  rw [connect]
  split
  · rfl
  · exact attempt?_awaitOpen _

/-- An attempt goes through, or is given up. -/
theorem tries_connect (s : Switchboard α ρ) (g : Nat) :
    Tries (some g) s none (s.connect g).1 := by
  rw [fst_connect]
  split
  · exact .abandon s g
  · exact .connect s g

/-- An attempt is started on a link that is closed. -/
theorem tries_dial {s : Switchboard α ρ} (h : s.link.phase = .closed) (k : Nat) :
    Tries none s (s.dial k).2.attempt? (s.dial k).1 := by
  rw [dial]
  dsimp only
  split
  · rw [attempt?_connect]
    exact (Tries.attempt h).trans (tries_connect _ _)
  · exact (Tries.attempt h).trans (.calm (calm_arm _ _ fun _ h => by cases h))

/-- A connection is looked for. -/
theorem tries_seekOpen (s : Switchboard α ρ) (k : Nat) :
    Tries none s (s.seekOpen k).2.attempt? (s.seekOpen k).1 := by
  rw [seekOpen]
  split
  · exact .calm (.refl s)
  · exact .calm (.refl s)
  · next h => exact tries_dial h k

/-- A caller goes on towards an open connection. -/
theorem tries_access (s : Switchboard α ρ) (stage : Stage) :
    Tries stage.attempt? s (s.access stage).2.attempt? (s.access stage).1 := by
  simp only [access]
  split
  · rw [attempt?_connect]
    exact s.tries_connect _
  · rw [attempt?_awaitOpen]
    exact .calm (.refl s)
  · exact .calm (.refl s)

/-- What comes after that leaves the attempt as it is. -/
theorem tries_proceed {a : Option Nat} {s : Switchboard α ρ} {p : Switchboard α ρ × Access}
    (h : Tries a s p.2.attempt? p.1) (k exchange : Nat) (spec : Spec α) :
    Tries a s (proceed k exchange spec p).2.attempt? (proceed k exchange spec p).1 := by
  obtain ⟨s', access⟩ := p
  cases access with
  | blocked stage => exact h
  | refused e => exact h
  | granted readiness =>
    change Tries a s (s'.authenticate k exchange spec readiness).2.attempt? _
    rw [attempt?_authenticate]
    exact h.trans (.calm (s'.calm_authenticate k exchange spec readiness))

/-- A caller goes on with its request. -/
theorem tries_deliver (s : Switchboard α ρ) (k exchange : Nat) (spec : Spec α) (stage : Stage) :
    Tries stage.attempt? s (s.deliver k exchange spec stage).2.attempt?
      (s.deliver k exchange spec stage).1 := by
  simp only [deliver]
  split
  · have hnone : (s.request exchange spec).2.attempt? = none := by
      rw [request]
      split <;> rfl
    rw [hnone]
    exact .calm (s.calm_request exchange spec)
  · exact tries_proceed (s.tries_access stage) k exchange spec

/-- A caller that stops at a stage gives up the attempt that it was making. -/
theorem tries_stopAt (s : Switchboard α ρ) (stage : Stage) :
    Tries stage.attempt? s none (s.stopAt stage) := by
  cases stage with
  | connecting g ripe => exact .abandon s g
  | opening => exact .calm (.refl s)
  | settling ripe => exact .calm (.refl s)
  | waiting => exact .calm (.refl s)

/-- A caller that is late gives up its attempt. -/
theorem tries_stageAfter {a : Option Nat} {s : Switchboard α ρ} {p : Switchboard α ρ × Delivery}
    (h : Tries a s p.2.attempt? p.1) (k exchange : Nat) (late : Bool) :
    Tries a s (stageAfter k exchange late p).2.attempt? (stageAfter k exchange late p).1 := by
  obtain ⟨s', d⟩ := p
  cases d with
  | blocked stage =>
    cases late with
    | true => exact (h.trans (s'.tries_stopAt stage)).trans (.calm (calm_disarm _ k))
    | false => exact h
  | delivered => exact h.trans (.calm (calm_disarm _ k))
  | failed e =>
    exact h.trans (.calm ((s'.calm_correlator _).trans (calm_disarm _ k)))

/-- A caller goes on at its exchange. -/
theorem tries_stride (s : Switchboard α ρ) (c : Caller α ρ) (exchange : Nat) (spec : Spec α) :
    Tries c.stage.attempt? s (s.stride c exchange spec).2.attempt?
      (s.stride c exchange spec).1 := by
  by_cases hstage : c.stage = .waiting
  · rw [stride_of_waiting hstage, hstage]
    exact .calm (.refl s)
  · rw [stride_of_underway hstage]
    exact tries_stageAfter (s.tries_deliver c.id exchange spec c.stage) c.id exchange c.late

/-- A caller begins with an exchange. -/
theorem tries_begin (s : Switchboard α ρ) (k : Nat) (spec : Spec α) :
    Tries none s (s.begin k spec).2.attempt? (s.begin k spec).1 := by
  have hstart : Tries none s none (s.enrol spec) := .calm (s.calm_register _ _)
  have hpart := tries_stageAfter
    (tries_proceed (hstart.trans ((s.enrol spec).tries_seekOpen k)) k s.correlator.next spec)
    k s.correlator.next (decide (spec.timeout = 0))
  rw [begin_eq]
  generalize stageAfter k s.correlator.next (decide (spec.timeout = 0)) _ = p at hpart ⊢
  obtain ⟨s₁, stage⟩ := p
  have harm : Calm s₁ (s₁.arm spec.timeout (.giveUp k)) := s₁.calm_arm _ fun _ h => by cases h
  cases stage with
  | waiting => exact hpart
  | connecting g ripe => exact hpart.trans (.calm harm)
  | opening => exact hpart.trans (.calm harm)
  | settling ripe => exact hpart.trans (.calm harm)

/-! ### The pause before an attempt -/

/-- A caller that is trying to connect will go on: a timer ends its pause, or it has done so. -/
def Attended (s : Switchboard α ρ) (k : Nat) : Stage → Prop
  | .connecting _ false => ∃ t ∈ s.timers, t.alarm = .ripen k
  | .connecting _ true => .caller k ∈ s.ready
  | _ => True

/-- A caller that makes no attempt needs nobody to go on. -/
theorem attended_of_attempt? {stage : Stage} (h : stage.attempt? = none) (s : Switchboard α ρ)
    (k : Nat) : s.Attended k stage := by
  cases stage with
  | connecting g ripe => cases h
  | opening => trivial
  | settling ripe => trivial
  | waiting => trivial

/-- A caller that will go on still will, if its timer and its turn are left. -/
theorem Attended.of_subset {s s' : Switchboard α ρ} {k : Nat} {stage : Stage}
    (h : s.Attended k stage) (htimers : ∀ t ∈ s.timers, t.alarm = .ripen k → t ∈ s'.timers)
    (hready : .caller k ∈ s.ready → .caller k ∈ s'.ready) : s'.Attended k stage := by
  cases stage with
  | connecting g ripe =>
    cases ripe with
    | true => exact hready h
    | false =>
      obtain ⟨t, ht, ha⟩ := h
      exact ⟨t, htimers t ht ha, ha⟩
  | opening => trivial
  | settling ripe => trivial
  | waiting => trivial

/-- Who seeks a connection and starts an attempt that hangs sets a timer. -/
theorem attended_seekOpen (s : Switchboard α ρ) (k : Nat) {stage : Stage}
    (h : (s.seekOpen k).2 = .blocked stage) : (s.seekOpen k).1.Attended k stage := by
  simp only [seekOpen] at h ⊢
  split at h
  · cases h
  · cases h
    trivial
  · simp only [dial] at h ⊢
    split at h
    · have hnone := attempt?_connect
        ({ s with link := s.link.attempt, wire := s.wire.attempt } :
        Switchboard α ρ) s.link.attempt.generation
      rw [h] at hnone
      exact attended_of_attempt? hnone _ k
    · next hstall =>
      cases h
      rw [if_neg hstall]
      exact ⟨_, List.mem_append_right _ (List.mem_singleton.mpr rfl), rfl⟩

/-- If a caller at a stage sits out the pause of an attempt, a timer will end the pause. -/
def Paused (s : Switchboard α ρ) (k : Nat) (stage : Stage) : Prop :=
  ∀ g, stage = .connecting g false → s.Attended k stage

/-- On the way to a connection no caller is held up. -/
theorem attended_access {s : Switchboard α ρ} {k : Nat} {stage stage' : Stage}
    (hs : s.Paused k stage)
    (h : (s.access stage).2 = .blocked stage') : (s.access stage).1.Attended k stage' := by
  cases stage with
  | connecting g ripe =>
    cases ripe with
    | true =>
      have hnone := s.attempt?_connect g
      change (s.connect g).2 = _ at h
      rw [h] at hnone
      exact attended_of_attempt? hnone _ k
    | false =>
      cases h
      exact hs g rfl
  | opening =>
    have hnone := s.attempt?_awaitOpen
    change s.awaitOpen = _ at h
    rw [h] at hnone
    exact attended_of_attempt? hnone _ k
  | settling ripe => cases h; trivial
  | waiting => cases h; trivial

/-- Nor after it. -/
theorem attended_proceed {k exchange : Nat} {spec : Spec α} {p : Switchboard α ρ × Access}
    (hp : ∀ stage, p.2 = .blocked stage → p.1.Attended k stage) {stage : Stage}
    (h : (proceed k exchange spec p).2 = .blocked stage) :
    (proceed k exchange spec p).1.Attended k stage := by
  obtain ⟨s, access⟩ := p
  cases access with
  | blocked stage' =>
    cases h
    exact hp _ rfl
  | refused e => cases h
  | granted readiness =>
    have hnone := s.attempt?_authenticate k exchange spec readiness
    change (s.authenticate k exchange spec readiness).2 = _ at h
    rw [h] at hnone
    exact attended_of_attempt? hnone _ k

/-- Nor where it is late. -/
theorem attended_stageAfter (k exchange : Nat) (late : Bool) {p : Switchboard α ρ × Delivery}
    (hp : ∀ stage, p.2 = .blocked stage → p.1.Attended k stage) :
    (stageAfter k exchange late p).1.Attended k (stageAfter k exchange late p).2 := by
  obtain ⟨s, d⟩ := p
  cases d with
  | blocked stage =>
    cases late with
    | true => trivial
    | false => exact hp stage rfl
  | delivered => trivial
  | failed e => trivial

/-- A caller whose pause is not over at the beginning of its turn keeps the timer for it. -/
theorem attended_stride {s : Switchboard α ρ} {c : Caller α ρ} (hs : s.Paused c.id c.stage)
    (exchange : Nat) (spec : Spec α) :
    (s.stride c exchange spec).1.Attended c.id (s.stride c exchange spec).2 := by
  by_cases hstage : c.stage = .waiting
  · rw [stride_of_waiting hstage]
    trivial
  · rw [stride_of_underway hstage]
    refine attended_stageAfter c.id exchange c.late fun stage h => ?_
    simp only [deliver] at h ⊢
    split at h
    · simp only [request] at h
      split at h <;> cases h
    · exact attended_proceed (fun _ ha => attended_access hs ha) h

/-- Nor at the beginning of an exchange. -/
theorem attended_begin (s : Switchboard α ρ) (k : Nat) (spec : Spec α) :
    (s.begin k spec).1.Attended k (s.begin k spec).2 := by
  have hproceed : ∀ stage,
      (proceed k s.correlator.next spec ((s.enrol spec).seekOpen k)).2 = .blocked stage →
      (proceed k s.correlator.next spec ((s.enrol spec).seekOpen k)).1.Attended k stage :=
    fun _ => attended_proceed fun _ => attended_seekOpen _ k
  have hpart := attended_stageAfter k s.correlator.next (decide (spec.timeout = 0)) hproceed
  rw [begin_eq]
  generalize stageAfter k s.correlator.next (decide (spec.timeout = 0)) _ = p at hpart ⊢
  obtain ⟨s₁, stage⟩ := p
  have harm : (s₁.arm spec.timeout (.giveUp k)).Attended k stage :=
    hpart.of_subset (fun t ht _ => List.mem_append_left _ ht) id
  cases stage with
  | waiting => trivial
  | connecting g ripe => exact harm
  | opening => trivial
  | settling ripe => trivial

/-! ### A whole turn -/

/-- The caller `k` goes from `s` to `s'`, where it is making an attempt only if it is there to
go on. It will do so if `p` holds. -/
def Goes (p : Prop) (k : Nat) (a : Option Nat) (s s' : Switchboard α ρ) : Prop :=
  ∃ b, Tries a s b s' ∧ (b ≠ none → ∃ d ∈ s'.callers, d.id = k) ∧
    ∀ d ∈ s'.callers, d.id = k → d.stage.attempt? = b ∧ (p → s'.Attended k d.stage)

section Goes

variable {p : Prop} {k : Nat}

/-- A caller goes on from where its attempt has come to. -/
theorem Goes.of_tries {a b : Option Nat} {s₁ s₂ s₃ : Switchboard α ρ} (h₁ : Tries a s₁ b s₂)
    (h₂ : Goes p k b s₂ s₃) : Goes p k a s₁ s₃ := by
  obtain ⟨c, htries, hlast⟩ := h₂
  exact ⟨c, h₁.trans htries, hlast⟩

/-- A caller that has come to a stage is kept there. -/
theorem goes_keep {s : Switchboard α ρ} (hnd : (s.callers.map Caller.id).Nodup) (c : Caller α ρ)
    (h : p → s.Attended c.id c.stage) : Goes p c.id c.stage.attempt? s (s.keep c) := by
  refine ⟨_, .calm (s.calm_keep c), fun _ => ⟨c, (mem_keep hnd).mpr (.inl rfl), rfl⟩,
    fun d hd hid => ?_⟩
  rcases (mem_keep hnd).mp hd with rfl | ⟨-, hne⟩
  · exact ⟨rfl, fun hp => (h hp).of_subset (fun _ ht _ => ht) id⟩
  · exact absurd hid hne

/-- A caller that is not making an attempt reports and goes. -/
theorem goes_finish (s : Switchboard α ρ) (label : String) (r : ρ) :
    Goes p k none s (s.finish k label r) :=
  ⟨none, .calm (s.calm_finish k label r), fun hne => absurd rfl hne,
    fun _ hd hid => absurd hid (not_mem_finish hd)⟩

/-- A caller starts on a plan. -/
theorem goes_pursue {s : Switchboard α ρ} (hi : s.Idle k) (label : String) {n : Nat}
    (plan : Plan α ρ n) : Goes p k none s (s.pursue k label plan) := by
  induction plan generalizing s with
  | report r => exact s.goes_finish label r
  | exchange spec next ih =>
    obtain ⟨hturn, hfits⟩ := begin_spec hi label spec
      (.exchange s.correlator.next spec _ next)
    have htries := s.tries_begin k spec
    have hattended := s.attended_begin k spec
    rw [pursue_exchange]
    generalize s.begin k spec = q at hturn hfits htries hattended ⊢
    obtain ⟨s₁, stage⟩ := q
    cases hend : s₁.ending? s.correlator.next stage with
    | none =>
      exact .of_tries htries (goes_keep (hturn.callers hi.ids_nodup).1
        ⟨k, label, stage, false, .exchange s.correlator.next spec _ next⟩ fun _ => hattended)
    | some r =>
      obtain ⟨rfl, -⟩ := ending?_eq_some_iff.mp hend
      exact .of_tries htries (ih r (hi.of_spares hturn (hfits.settled rfl).disarmed))

end Goes

/-- A caller gets on from where it is. -/
theorem goes_tend {s : Switchboard α ρ} {c : Caller α ρ} (h : s.OrderlyBut (some c.id))
    (hp : ∀ ex spec, c.goal.errand? = some (ex, spec) → s.Poised c ex spec) :
    Goes (s.Paused c.id c.stage) c.id c.stage.attempt? s (s.tend c) := by
  cases hg : c.goal with
  | readiness tell =>
    have htries := s.tries_access c.stage
    have hattended : ∀ stage, (s.access c.stage).2 = .blocked stage → s.Paused c.id c.stage →
        (s.access c.stage).1.Attended c.id stage := fun _ heq hs => attended_access hs heq
    have hnd := (((s.aside_access c.stage).spares_nil c.id).callers h.ids_nodup).1
    rw [tend_readiness s hg]
    generalize s.access c.stage = q at htries hattended hnd ⊢
    obtain ⟨s₁, access⟩ := q
    cases access with
    | blocked stage =>
      exact .of_tries htries (goes_keep hnd { c with stage := stage } (hattended stage rfl))
    | granted readiness => exact .of_tries htries (s₁.goes_finish c.label _)
    | refused e => exact .of_tries htries (s₁.goes_finish c.label _)
  | exchange ex spec n next =>
    have he : c.goal.errand? = some (ex, spec) := by rw [hg, Goal.errand?]
    obtain ⟨hturn, hfits, -⟩ := stride_spec h.sound (hp ex spec he)
    have htries := s.tries_stride c ex spec
    have hattended : s.Paused c.id c.stage →
        (s.stride c ex spec).1.Attended c.id (s.stride c ex spec).2 :=
      fun hs => attended_stride hs ex spec
    rw [tend_exchange s hg]
    generalize s.stride c ex spec = q at hturn hfits htries hattended ⊢
    obtain ⟨s₁, stage⟩ := q
    cases hend : s₁.ending? ex stage with
    | none =>
      exact .of_tries htries
        (goes_keep (hturn.callers h.ids_nodup).1 { c with stage := stage } hattended)
    | some r =>
      obtain ⟨rfl, -⟩ := ending?_eq_some_iff.mp hend
      exact .of_tries htries
        (goes_pursue (h.idle_of_turn hturn (hfits.settled rfl).disarmed) c.label _)

/-- A new caller asks for a connection. -/
theorem goes_ensureOpen {s : Switchboard α ρ} (h : s.Orderly) (p : Prop) (label : String)
    (tell : Except OperationError Readiness → ρ) :
    Goes p s.next none s.enlist (s.ensureOpen label tell) := by
  have htries := s.enlist.tries_seekOpen s.next
  have hattended : ∀ stage, (s.enlist.seekOpen s.next).2 = .blocked stage →
      (s.enlist.seekOpen s.next).1.Attended s.next stage :=
        fun _ => s.enlist.attended_seekOpen s.next
  have hnd := (((s.enlist.aside_seekOpen s.next).spares_nil s.next).callers h.ids_nodup).1
  rw [ensureOpen_eq]
  generalize s.enlist.seekOpen s.next = q at htries hattended hnd ⊢
  obtain ⟨s₁, access⟩ := q
  cases access with
  | blocked stage =>
    exact .of_tries htries
      (goes_keep hnd ⟨s.next, label, stage, false, .readiness tell⟩ fun _ =>
      hattended stage rfl)
  | granted readiness => exact .of_tries htries (s₁.goes_finish label _)
  | refused e => exact .of_tries htries (s₁.goes_finish label _)

/-- A new caller that only listens makes no attempt. -/
theorem goes_listen {s : Switchboard α ρ} (h : s.Orderly) (p : Prop) (label : String)
    (m : Matcher α) (timeout : Nat) (tell : Resolution α → ρ) :
    Goes p s.next none s.enlist (s.listen label m timeout tell) :=
  .of_tries (.calm (s.enlist.calm_register m timeout))
    (goes_keep (s := s.enlist.enrol (listening m timeout)) h.ids_nodup
      ⟨s.next, label, .waiting, false,
        .exchange s.correlator.next (listening m timeout) 0 fun r => .report (tell r)⟩
      fun _ => trivial)

/-- A caller that is stopped gives its attempt up and goes. -/
theorem goes_stop (s : Switchboard α ρ) (p : Prop) (c : Caller α ρ) :
    Goes p c.id c.stage.attempt? s ((s.stopAt c.stage).dismiss c.id) := by
  refine ⟨none, (s.tries_stopAt c.stage).trans (.calm (calm_dismiss _ c.id)),
    fun hne => absurd rfl hne, fun d hd hid => ?_⟩
  have := (List.mem_filter.mp hd).2
  simp [hid] at this

end Switchboard

end VenueLink

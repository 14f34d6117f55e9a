import VenueLink.Switchboard.Step

/-!
# What happens to a switchboard

`Switchboard.run` lets everything that is ready happen before the next step is taken. Here the
same things happen one by one, as events: something is done from outside, what is ready first is
done, the clock goes on, or the signals that were taken in are picked up, to be handled one by
one. Events may come in any order, so whatever holds after all events holds in the middle of a
step too.

Most of what a switchboard does leaves the exchanges, the callers and the clock as they are;
`Aside` says what may change then.

## Main results

* `aside_deliver`: the delivery of a request changes nothing else, and sends the request of the
  exchange exactly when it comes through.
* `deliver_eq_delivered_iff`: when it comes through.
-/

namespace VenueLink.Switchboard

open Exchange

variable {α ρ : Type}

/-- What can happen to a switchboard. -/
inductive Event (α ρ : Type) where
  /-- Something is done from outside; time does not pass by that. -/
  | act (step : Step α ρ)
  /-- What is ready first is done, or those who have yielded go on. -/
  | next
  /-- The clock goes to an instant, unless it is past it, and timers run out. -/
  | tick (instant : Nat)
  /-- The signals that were taken in are picked up. -/
  | collect
  /-- All signals have been handled. -/
  | hush

/-- Let an event happen. -/
def occur (s : Switchboard α ρ) : Event α ρ → Switchboard α ρ
  | .act (.advance _) => s
  | .act step => (s.act step).1
  | .next => s.next?.getD s
  | .tick instant => { s with now := max s.now instant }.ring
  | .collect => { s with inbox := [] }
  | .hush => { s with ready := s.ready.filter (· ≠ .signals) }

/-- Let several events happen. -/
def after (s : Switchboard α ρ) (events : List (Event α ρ)) : Switchboard α ρ :=
  events.foldl occur s

/-- What comes of events one part after the other. -/
theorem after_append (s : Switchboard α ρ) (xs ys : List (Event α ρ)) :
    s.after (xs ++ ys) = (s.after xs).after ys :=
  List.foldl_append

/-- The exchanges whose requests have gone over the wire, in order. -/
def requests (s : Switchboard α ρ) : List Nat :=
  s.wire.sent.filterMap Sent.exchange

/-! ### What leaves the exchanges and the callers alone -/

/-- What is appended in two steps is appended in one. -/
theorem exists_append_trans {β : Type} {p q r : List β → Prop} {l₁ l₂ l₃ : List β}
    (h₁ : ∃ more, l₂ = l₁ ++ more ∧ p more) (h₂ : ∃ more, l₃ = l₂ ++ more ∧ q more)
    (h : ∀ {xs ys}, p xs → q ys → r (xs ++ ys)) : ∃ more, l₃ = l₁ ++ more ∧ r more := by
  obtain ⟨xs, rfl, hxs⟩ := h₁
  obtain ⟨ys, rfl, hys⟩ := h₂
  exact ⟨xs ++ ys, List.append_assoc _ _ _, h hxs hys⟩

/-- Between `s` and `s'` only the link, the wire and the signals have changed; more tasks may be
ready and more timers set, but no exchange expires and no deadline is set for a caller. The
requests of `new` have been sent, and maybe other frames, at the instant of `s`. -/
structure Aside (s : Switchboard α ρ) (new : List Nat) (s' : Switchboard α ρ) : Prop where
  now_eq : s'.now = s.now
  correlator_eq : s'.correlator = s.correlator
  callers_eq : s'.callers = s.callers
  next_eq : s'.next = s.next
  reports_eq : s'.reports = s.reports
  yielded_eq : s'.yielded = s.yielded
  sent : ∃ more, s'.wire.sent = s.wire.sent ++ more ∧ more.filterMap Sent.exchange = new ∧
    ∀ x ∈ more, x.time = s.now
  ready : ∃ more, s'.ready = s.ready ++ more ∧ ∀ id, .expire id ∉ more
  timers : ∃ more, s'.timers = s.timers ++ more ∧
    ∀ t ∈ more, s.now < t.due ∧ ∀ k, t.alarm ≠ .giveUp k

/-- The requests that are sent in between are `new`. -/
theorem Aside.requests_eq {s s' : Switchboard α ρ} {new : List Nat} (h : s.Aside new s') :
    s'.requests = s.requests ++ new := by
  obtain ⟨more, heq, rfl, -⟩ := h.sent
  rw [requests, heq, List.filterMap_append, requests]

/-- Where nothing happens, nothing is touched. -/
theorem Aside.refl (s : Switchboard α ρ) : s.Aside [] s :=
  ⟨rfl, rfl, rfl, rfl, rfl, rfl, ⟨[], by simp⟩, ⟨[], by simp⟩, ⟨[], by simp⟩⟩

/-- Two such stretches one after the other. -/
theorem Aside.trans {s₁ s₂ s₃ : Switchboard α ρ} {xs ys : List Nat} (h₁ : s₁.Aside xs s₂)
    (h₂ : s₂.Aside ys s₃) : s₁.Aside (xs ++ ys) s₃ where
  now_eq := h₂.now_eq.trans h₁.now_eq
  correlator_eq := h₂.correlator_eq.trans h₁.correlator_eq
  callers_eq := h₂.callers_eq.trans h₁.callers_eq
  next_eq := h₂.next_eq.trans h₁.next_eq
  reports_eq := h₂.reports_eq.trans h₁.reports_eq
  yielded_eq := h₂.yielded_eq.trans h₁.yielded_eq
  sent := by
    refine exists_append_trans h₁.sent h₂.sent fun ⟨hnew₁, htime₁⟩ ⟨hnew₂, htime₂⟩ => ⟨?_, ?_⟩
    · rw [List.filterMap_append, hnew₁, hnew₂]
    · exact List.forall_mem_append.mpr ⟨htime₁, fun x hx => (htime₂ x hx).trans h₁.now_eq⟩
  ready := exists_append_trans h₁.ready h₂.ready fun hno₁ hno₂ id =>
    List.not_mem_append (hno₁ id) (hno₂ id)
  timers := exists_append_trans h₁.timers h₂.timers fun hnew₁ hnew₂ =>
    List.forall_mem_append.mpr ⟨hnew₁, h₁.now_eq ▸ hnew₂⟩

/-- One change after another that sends nothing. -/
theorem Aside.trans_nil {s₁ s₂ s₃ : Switchboard α ρ} {xs : List Nat} (h₁ : s₁.Aside [] s₂)
    (h₂ : s₂.Aside xs s₃) : s₁.Aside xs s₃ :=
  h₁.trans h₂

/-- A change that sends nothing after another one. -/
theorem Aside.then_nil {s₁ s₂ s₃ : Switchboard α ρ} {xs : List Nat} (h₁ : s₁.Aside xs s₂)
    (h₂ : s₂.Aside [] s₃) : s₁.Aside xs s₃ :=
  List.append_nil xs ▸ h₁.trans h₂

/-- What is ready remains so. -/
theorem Aside.mem_ready {s s' : Switchboard α ρ} {new : List Nat} (h : s.Aside new s')
    {t : Task} (ht : t ∈ s.ready) : t ∈ s'.ready := by
  obtain ⟨more, heq, -⟩ := h.ready
  exact heq ▸ List.mem_append_left _ ht

/-- What is armed remains so. -/
theorem Aside.mem_timers {s s' : Switchboard α ρ} {new : List Nat} (h : s.Aside new s')
    {t : Timer} (ht : t ∈ s.timers) : t ∈ s'.timers := by
  obtain ⟨more, heq, -⟩ := h.timers
  exact heq ▸ List.mem_append_left _ ht

/-- News of the link. -/
theorem aside_link (s : Switchboard α ρ) (l : Link) : s.Aside [] { s with link := l } :=
  ⟨rfl, rfl, rfl, rfl, rfl, rfl, ⟨[], by simp⟩, ⟨[], by simp⟩, ⟨[], by simp⟩⟩

/-- Signals are taken in, or out. -/
theorem aside_inbox (s : Switchboard α ρ) (signals : List Signal) :
    s.Aside [] { s with inbox := signals } :=
  ⟨rfl, rfl, rfl, rfl, rfl, rfl, ⟨[], by simp⟩, ⟨[], by simp⟩, ⟨[], by simp⟩⟩

/-- A wire that has sent as much as before. -/
theorem aside_wire (s : Switchboard α ρ) {w : Wire} (h : w.sent = s.wire.sent) :
    s.Aside [] { s with wire := w } :=
  ⟨rfl, rfl, rfl, rfl, rfl, rfl, ⟨[], by simp [h]⟩, ⟨[], by simp⟩, ⟨[], by simp⟩⟩

/-- A task that lets no exchange expire becomes ready. -/
theorem aside_enqueue (s : Switchboard α ρ) {t : Task} (ht : ∀ id, t ≠ .expire id) :
    s.Aside [] (s.enqueue t) := by
  rw [enqueue]
  split
  · exact .refl s
  · refine ⟨rfl, rfl, rfl, rfl, rfl, rfl, ⟨[], by simp⟩, ⟨[t], rfl, ?_⟩, ⟨[], by simp⟩⟩
    intro id hmem
    exact ht id (List.mem_singleton.mp hmem).symm

/-- Signals of the transport are taken in. -/
theorem aside_hear (s : Switchboard α ρ) (signals : List Signal) :
    s.Aside [] (s.hear signals) := by
  rw [hear]
  split
  · exact .refl s
  · refine (s.aside_inbox (s.inbox ++ signals)).trans_nil ?_
    dsimp only
    split
    · exact .refl _
    · exact aside_enqueue _ (fun _ h => by cases h)

/-- A timer is set that does not cut a wait short. -/
theorem aside_arm (s : Switchboard α ρ) {duration : Nat} {alarm : Alarm} (hd : duration ≠ 0)
    (ha : ∀ k, alarm ≠ .giveUp k) : s.Aside [] (s.arm duration alarm) := by
  refine ⟨rfl, rfl, rfl, rfl, rfl, rfl, ⟨[], by simp [arm]⟩,
    ⟨[], (List.append_nil _).symm, fun _ h => absurd h List.not_mem_nil⟩,
    ⟨[⟨s.now + duration, alarm⟩], rfl, ?_⟩⟩
  intro t ht
  obtain rfl := List.mem_singleton.mp ht
  exact ⟨Nat.lt_add_of_pos_right (Nat.pos_of_ne_zero hd), ha⟩

/-- Callers are woken one by one. -/
theorem aside_foldl_enqueue (l : List (Caller α ρ)) (s : Switchboard α ρ) :
    s.Aside [] (l.foldl (fun s c => s.enqueue (.caller c.id)) s) := by
  induction l generalizing s with
  | nil => exact .refl s
  | cons c rest ih =>
    exact (s.aside_enqueue (fun _ h => by cases h)).trans_nil (ih _)

/-- Callers are woken. -/
theorem aside_wakeWhere (s : Switchboard α ρ) (p : Caller α ρ → Bool) :
    s.Aside [] (s.wakeWhere p) :=
  aside_foldl_enqueue _ s

/-- Those who wait for exchanges that have ended are woken. -/
theorem aside_foldl_wakeWaiting (l : List Nat) (s : Switchboard α ρ) :
    s.Aside [] (l.foldl wakeWaiting s) := by
  induction l generalizing s with
  | nil => exact .refl s
  | cons id rest ih => exact (s.aside_wakeWhere _).trans_nil (ih _)

/-- An attempt at a connection is given up. -/
theorem aside_abandon (s : Switchboard α ρ) (generation : Nat) :
    s.Aside [] (s.abandon generation) := by
  unfold abandon
  dsimp only
  split
  · exact .refl s
  · exact (s.aside_link _).trans_nil (aside_wakeWhere _ _)

/-- Sending a frame over the wire, and taking in what comes back. -/
theorem aside_send {s : Switchboard α ρ} {exchange : Option Nat} {frame : Json} {w : Wire}
    {signals : List Signal} (h : s.wire.send s.now exchange frame = .ok (w, signals)) :
    s.Aside exchange.toList ({ s with wire := w }.hear signals) := by
  rw [Wire.send] at h
  split at h
  · cases h
    have hsent : s.Aside exchange.toList { s with
        wire := { s.wire with
          sent := s.wire.sent ++ [⟨frame, s.now, s.wire.connection.getD 0, exchange⟩] } } := by
      refine ⟨rfl, rfl, rfl, rfl, rfl, rfl, ⟨_, rfl, ?_, fun x hx => ?_⟩, ⟨[], by simp⟩,
        ⟨[], by simp⟩⟩
      · cases exchange <;> rfl
      · rw [List.mem_singleton.mp hx]
    exact hsent.then_nil (aside_hear _ _)
  · cases h

/-- A frame that goes over the link goes over the wire, and what comes back is taken in. -/
theorem exists_send_of_transmit {s s' : Switchboard α ρ} {exchange : Option Nat} {frame : Json}
    (h : s.transmit exchange frame = .ok s') : s.link.isOpen ∧ ∃ w signals,
      s.wire.send s.now exchange frame = .ok (w, signals) ∧
        s' = { s with wire := w }.hear signals := by
  rw [transmit] at h
  split at h
  · next hopen =>
    cases hsend : s.wire.send s.now exchange frame with
    | error e => rw [hsend] at h; cases h
    | ok p =>
      rw [hsend] at h
      cases h
      exact ⟨hopen, p.1, p.2, rfl, rfl⟩
  · cases h

/-- A frame is sent; it counts as a request if it is the one of an exchange. -/
theorem aside_transmit {s s' : Switchboard α ρ} {exchange : Option Nat} {frame : Json}
    (h : s.transmit exchange frame = .ok s') : s.Aside exchange.toList s' := by
  obtain ⟨-, w, signals, hsend, rfl⟩ := exists_send_of_transmit h
  exact aside_send hsend

/-- The handshake is sent. -/
theorem aside_greet (s : Switchboard α ρ) : s.Aside [] s.greet := by
  rw [greet]
  split
  · exact .refl s
  · split
    · next h => exact aside_send h
    · exact .refl s

/-! ### The delivery of a request -/

/-- The exchange whose request has been sent, if it has. -/
def Delivery.sent (exchange : Nat) : Delivery → List Nat
  | .delivered => [exchange]
  | _ => []

/-- The transport says that it is open, at once or some time later. -/
theorem aside_announce (s : Switchboard α ρ) (generation : Nat) :
    s.Aside [] (s.announce generation) := by
  rw [announce]
  split
  · exact s.aside_hear _
  · next h => exact s.aside_arm h (fun _ h => by cases h)

/-- An attempt that goes through is announced; one that is refused is given up. -/
theorem fst_connect (s : Switchboard α ρ) (generation : Nat) :
    (s.connect generation).1 =
      if s.wire.refuses then s.abandon generation
      else
        { s with
          wire := { s.wire with connection := some generation, isOpen := true } }.announce
            generation := by
  cases hrefuses : s.wire.refuses <;> simp [connect, Wire.connect, hrefuses]

/-- The transport is asked for a connection. -/
theorem aside_connect (s : Switchboard α ρ) (generation : Nat) :
    s.Aside [] (s.connect generation).1 := by
  rw [fst_connect]
  split
  · exact s.aside_abandon generation
  · refine (aside_wire s ?_).trans_nil (aside_announce _ generation)
    rfl

/-- A new connection is tried. -/
theorem aside_dial (s : Switchboard α ρ) (caller : Nat) : s.Aside [] (s.dial caller).1 := by
  have hattempt : s.Aside [] { s with link := s.link.attempt, wire := s.wire.attempt } :=
    (s.aside_link s.link.attempt).trans_nil (aside_wire _ rfl)
  rw [dial]
  dsimp only
  split
  · exact hattempt.trans_nil (aside_connect _ _)
  · next h => exact hattempt.trans_nil (aside_arm _ h (fun _ h => by cases h))

/-- A connection is looked for, and tried if there is none. -/
theorem aside_seekOpen (s : Switchboard α ρ) (caller : Nat) :
    s.Aside [] (s.seekOpen caller).1 := by
  rw [seekOpen]
  split
  · exact .refl s
  · exact .refl s
  · exact s.aside_dial caller

/-- A caller goes on towards an open connection. -/
theorem aside_access (s : Switchboard α ρ) (stage : Stage) : s.Aside [] (s.access stage).1 := by
  simp only [access]
  split
  · exact s.aside_connect _
  · exact .refl s
  · exact .refl s

/-- The request of an exchange is sent, or its caller waits on. -/
theorem aside_request (s : Switchboard α ρ) (exchange : Nat) (spec : Spec α) :
    s.Aside ((s.request exchange spec).2.sent exchange) (s.request exchange spec).1 := by
  rw [request]
  split
  · next h => exact aside_transmit h
  · exact .refl s

/-- The pause before a request begins, or there is none. -/
theorem aside_pause (s : Switchboard α ρ) (caller exchange : Nat) (spec : Spec α) :
    s.Aside ((authenticate.pause caller exchange spec s).2.sent exchange)
      (authenticate.pause caller exchange spec s).1 := by
  rw [authenticate.pause]
  split
  · exact s.aside_request exchange spec
  · next h => exact s.aside_arm h (fun _ h => by cases h)

/-- The handshake is sent before a request, and the pause begins. -/
theorem aside_authenticate (s : Switchboard α ρ) (caller exchange : Nat) (spec : Spec α)
    (readiness : Readiness) :
    s.Aside ((s.authenticate caller exchange spec readiness).2.sent exchange)
      (s.authenticate caller exchange spec readiness).1 := by
  rw [authenticate]
  split
  · exact s.aside_request exchange spec
  · split
    · exact s.aside_pause caller exchange spec
    · split
      · next h => exact (aside_transmit h).trans_nil (aside_pause _ caller exchange spec)
      · exact .refl s

/-- What comes after a connection has been reached. -/
theorem aside_proceed {s : Switchboard α ρ} (caller exchange : Nat) (spec : Spec α)
    {p : Switchboard α ρ × Access} (h : s.Aside [] p.1) :
    s.Aside ((proceed caller exchange spec p).2.sent exchange)
      (proceed caller exchange spec p).1 := by
  obtain ⟨s', access⟩ := p
  cases access with
  | blocked stage => exact h
  | refused e => exact h
  | granted readiness =>
      exact h.trans_nil (s'.aside_authenticate caller exchange spec readiness)

/-- The delivery of a request sends the request if it comes through, and changes nothing else.
-/
theorem aside_deliver (s : Switchboard α ρ) (caller exchange : Nat) (spec : Spec α)
    (stage : Stage) :
    s.Aside ((s.deliver caller exchange spec stage).2.sent exchange)
      (s.deliver caller exchange spec stage).1 := by
  simp only [deliver]
  split
  · exact s.aside_request exchange spec
  · exact aside_proceed caller exchange spec (s.aside_access _)

/-! ### When a delivery comes through -/

/-- The delivery of a request from a stage comes through at once: the connection can be used,
and there is nothing left to wait for. -/
def ComesThrough (s : Switchboard α ρ) (spec : Spec α) : Stage → Prop
  | .connecting _ ripe => ripe ∧ s.link.isOpen ∧ s.wire.refuses = false ∧
      (s.link.handshake = none ∨ spec.settle = 0)
  | .opening => s.link.isOpen ∧ s.wire.isOpen ∧ (s.link.handshake = none ∨ spec.settle = 0)
  | .settling ripe => ripe ∧ s.link.isOpen ∧ s.wire.isOpen
  | .waiting => False

/-- A task that becomes ready does not touch the link. -/
@[simp] theorem link_enqueue (s : Switchboard α ρ) (t : Task) :
    (s.enqueue t).link = s.link := rfl

/-- Nor the wire. -/
@[simp] theorem wire_enqueue (s : Switchboard α ρ) (t : Task) :
    (s.enqueue t).wire = s.wire := rfl

/-- Nor the timers. -/
@[simp] theorem timers_enqueue (s : Switchboard α ρ) (t : Task) :
    (s.enqueue t).timers = s.timers :=
  rfl

/-- Signals that are taken in do not touch the link. -/
@[simp] theorem link_hear (s : Switchboard α ρ) (signals : List Signal) :
    (s.hear signals).link = s.link := by
  rw [hear]
  split
  · rfl
  · dsimp only
    split
    · rfl
    · exact link_enqueue _ _

/-- Nor the wire. -/
@[simp] theorem wire_hear (s : Switchboard α ρ) (signals : List Signal) :
    (s.hear signals).wire = s.wire := by
  rw [hear]
  split
  · rfl
  · dsimp only
    split
    · rfl
    · exact wire_enqueue _ _

/-- Nor the timers. -/
@[simp] theorem timers_hear (s : Switchboard α ρ) (signals : List Signal) :
    (s.hear signals).timers = s.timers := by
  rw [hear]
  split
  · rfl
  · dsimp only
    split
    · rfl
    · exact timers_enqueue _ _

/-- Callers that are woken one by one do not touch the timers. -/
theorem timers_foldl_enqueue (l : List (Caller α ρ)) (s : Switchboard α ρ) :
    (l.foldl (fun s c => s.enqueue (.caller c.id)) s).timers = s.timers := by
  induction l generalizing s with
  | nil => rfl
  | cons c rest ih => rw [List.foldl_cons, ih, timers_enqueue]

/-- Nor do callers that are woken together. -/
@[simp] theorem timers_wakeWhere (s : Switchboard α ρ) (p : Caller α ρ → Bool) :
    (s.wakeWhere p).timers = s.timers :=
  timers_foldl_enqueue _ s

/-- Nor do those who wait for exchanges. -/
@[simp] theorem timers_foldl_wakeWaiting (l : List Nat) (s : Switchboard α ρ) :
    (l.foldl wakeWaiting s).timers = s.timers := by
  induction l generalizing s with
  | nil => rfl
  | cons id rest ih => rw [List.foldl_cons, ih, wakeWaiting, timers_wakeWhere]

/-- An attempt that is given up leaves the timers. -/
@[simp] theorem timers_abandon (s : Switchboard α ρ) (generation : Nat) :
    (s.abandon generation).timers = s.timers := by
  simp only [abandon]
  split
  · rfl
  · exact timers_wakeWhere _ _

/-- A frame that is sent sets no timer. -/
theorem timers_transmit {s s' : Switchboard α ρ} {exchange : Option Nat} {frame : Json}
    (h : s.transmit exchange frame = .ok s') : s'.timers = s.timers := by
  obtain ⟨-, w, signals, -, rfl⟩ := exists_send_of_transmit h
  exact timers_hear _ signals

/-- Nor does the handshake. -/
@[simp] theorem timers_greet (s : Switchboard α ρ) : s.greet.timers = s.timers := by
  rw [greet]
  split
  · rfl
  · split
    · exact timers_hear _ _
    · rfl

/-- The link does not change before the announcement has been heard. -/
@[simp] theorem link_announce (s : Switchboard α ρ) (generation : Nat) :
    (s.announce generation).link = s.link := by
  rw [announce]
  split
  · exact s.link_hear _
  · rfl

/-- Nor does the wire. -/
@[simp] theorem wire_announce (s : Switchboard α ρ) (generation : Nat) :
    (s.announce generation).wire = s.wire := by
  rw [announce]
  split
  · exact s.wire_hear _
  · rfl

/-- A request is sent exactly over a link and a wire that are both open. -/
theorem request_eq_delivered_iff (s : Switchboard α ρ) (exchange : Nat) (spec : Spec α) :
    (s.request exchange spec).2 = .delivered ↔ s.link.isOpen ∧ s.wire.isOpen := by
  rw [request, transmit, Wire.send]
  cases s.link.isOpen <;> cases s.wire.isOpen <;> simp [bind, Except.bind]

/-- An exchange whose connection has just opened sends its request at once if it has nothing to
wait for. -/
theorem authenticate_eq_delivered_iff (s : Switchboard α ρ) (caller exchange : Nat)
    (spec : Spec α) :
    (s.authenticate caller exchange spec .opened).2 = .delivered ↔
      s.link.isOpen ∧ s.wire.isOpen ∧ (s.link.handshake = none ∨ spec.settle = 0) := by
  rw [authenticate, authenticate.pause]
  cases s.link.handshake with
  | none => simpa using s.request_eq_delivered_iff exchange spec
  | some handshake =>
    by_cases hsettle : spec.settle = 0
    · simpa [hsettle] using s.request_eq_delivered_iff exchange spec
    · simp [hsettle]

/-- On an open link there is nothing to wait for. -/
theorem awaitOpen_of_isOpen {s : Switchboard α ρ} (h : s.link.isOpen) :
    s.awaitOpen = .granted .opened := by
  have hphase : s.link.phase = .opened := by simpa [Link.isOpen] using h
  rw [awaitOpen, hphase]

/-- Without a connection that is open a caller who waits for it does not get on to its request.
-/
theorem proceed_awaitOpen_of_not_isOpen {s : Switchboard α ρ} (h : ¬s.link.isOpen)
    (caller exchange : Nat) (spec : Spec α) :
    (proceed caller exchange spec (s, s.awaitOpen)).2 ≠ .delivered := by
  rw [awaitOpen]
  cases hphase : s.link.phase with
  | closed => simp [proceed]
  | connecting => simp [proceed]
  | opened => exact absurd (by simp [Link.isOpen, hphase]) h

/-- A caller who waits for the connection sends its request as soon as that is open, if it has
nothing else to wait for. -/
theorem proceed_awaitOpen_eq_delivered_iff (s : Switchboard α ρ) (caller exchange : Nat)
    (spec : Spec α) :
    (proceed caller exchange spec (s, s.awaitOpen)).2 = .delivered ↔
      s.link.isOpen ∧ s.wire.isOpen ∧ (s.link.handshake = none ∨ spec.settle = 0) := by
  by_cases h : s.link.isOpen
  · rw [awaitOpen_of_isOpen h]
    exact s.authenticate_eq_delivered_iff caller exchange spec
  · exact iff_of_false (proceed_awaitOpen_of_not_isOpen h caller exchange spec) (h ·.1)

/-- When the delivery of a request comes through. -/
theorem deliver_eq_delivered_iff (s : Switchboard α ρ) (caller exchange : Nat) (spec : Spec α)
    (stage : Stage) :
    (s.deliver caller exchange spec stage).2 = .delivered ↔ s.ComesThrough spec stage := by
  cases stage with
  | waiting => simp [deliver, access, proceed, ComesThrough]
  | opening => exact s.proceed_awaitOpen_eq_delivered_iff caller exchange spec
  | settling ripe =>
    cases ripe with
    | false => simp [deliver, access, proceed, ComesThrough]
    | true => simpa [deliver, ComesThrough] using s.request_eq_delivered_iff exchange spec
  | connecting generation ripe =>
    cases ripe with
    | false => simp [deliver, access, proceed, ComesThrough]
    | true =>
      simp only [deliver, access, ComesThrough, connect, Wire.connect]
      cases hrefuses : s.wire.refuses with
      | true => simp [proceed]
      | false =>
        have := proceed_awaitOpen_eq_delivered_iff
          ({ s with
            wire := { s.wire with connection := some generation, isOpen := true } }.announce
              generation) caller exchange spec
        rw [link_announce, wire_announce] at this
        simpa [hrefuses] using this

/-! ### Where a delivery stops -/

/-- No delivery stops in the end of an exchange. -/
def Delivery.Underway : Delivery → Prop
  | .blocked stage => stage ≠ .waiting
  | _ => True

/-- No access is blocked by the end of an exchange. -/
def Access.Underway : Access → Prop
  | .blocked stage => stage ≠ .waiting
  | _ => True

/-- A wait for the link to open is not one for the end of an exchange. -/
theorem underway_awaitOpen (s : Switchboard α ρ) : s.awaitOpen.Underway := by
  rw [awaitOpen]
  split <;> simp [Access.Underway]

/-- Nor is what comes of asking for a connection. -/
theorem underway_connect (s : Switchboard α ρ) (generation : Nat) :
    (s.connect generation).2.Underway := by
  rw [connect]
  split
  · trivial
  · exact underway_awaitOpen _

/-- Nor what comes of looking for one. -/
theorem underway_seekOpen (s : Switchboard α ρ) (caller : Nat) :
    (s.seekOpen caller).2.Underway := by
  rw [seekOpen, dial]
  dsimp only
  split
  · trivial
  · simp [Access.Underway]
  · split
    · exact underway_connect _ _
    · simp [Access.Underway]

/-- Nor the way on to one, for those who do not wait for the end already. -/
theorem underway_access (s : Switchboard α ρ) {stage : Stage} (h : stage ≠ .waiting) :
    (s.access stage).2.Underway := by
  simp only [access]
  split
  · exact underway_connect _ _
  · exact underway_awaitOpen s
  · exact h

/-- A request is sent or fails, with no wait at all. -/
theorem underway_request (s : Switchboard α ρ) (exchange : Nat) (spec : Spec α) :
    (s.request exchange spec).2.Underway := by
  rw [request]
  split <;> trivial

/-- The pause before a request is not a wait for the end of the exchange. -/
theorem underway_authenticate (s : Switchboard α ρ) (caller exchange : Nat) (spec : Spec α)
    (readiness : Readiness) : (s.authenticate caller exchange spec readiness).2.Underway := by
  have hpause : ∀ s : Switchboard α ρ,
      (authenticate.pause caller exchange spec s).2.Underway := by
    intro s
    rw [authenticate.pause]
    split
    · exact s.underway_request exchange spec
    · simp [Delivery.Underway]
  rw [authenticate]
  split
  · exact s.underway_request exchange spec
  · split
    · exact hpause s
    · split
      · exact hpause _
      · trivial

/-- A delivery stops in the end of the exchange only if the access that it goes on from did. -/
theorem underway_proceed (caller exchange : Nat) (spec : Spec α) {p : Switchboard α ρ × Access}
    (h : p.2.Underway) : (proceed caller exchange spec p).2.Underway := by
  obtain ⟨s, access⟩ := p
  cases access with
  | blocked stage => exact h
  | refused e => trivial
  | granted readiness => exact s.underway_authenticate caller exchange spec readiness

/-- A delivery that does not come through at once stops short of the end of the exchange. -/
theorem underway_deliver (s : Switchboard α ρ) (caller exchange : Nat) (spec : Spec α)
    {stage : Stage} (h : stage ≠ .waiting) :
    (s.deliver caller exchange spec stage).2.Underway := by
  simp only [deliver]
  split
  · exact s.underway_request exchange spec
  · exact underway_proceed caller exchange spec (s.underway_access h)

end VenueLink.Switchboard

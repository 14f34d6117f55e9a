import VenueLink.Proofs.Switchboard.Course
import Mathlib.Logic.Relation

/-!
# What a turn is made of

A turn goes through many cases, but all that a caller does in it comes down to a few motions: it
sends the handshake or its request, it begins a pause, it starts an attempt to connect, which
goes through or is given up, it fails its exchange, or takes back its timers. `Motion` lists
them; a whole turn (`Turn`) has besides that the exchanges are registered, and that the caller
is kept in its place or reports and goes. So whatever relation between states is reflexive,
transitive and holds of each motion holds of a turn and of its parts, and how they are put
together need not be gone through again.

## Main results

* `Motion.aside_or`: what a motion leaves alone.
* `authenticate_of_motions`: what a caller does once it has access, for a relation that need not
  hold of the other motions.
* `motions_stride`, `exists_motions_begin`: a caller gets on with its exchange, or begins one,
  by motions.
* `turn_pursue`, `turn_tend`, `turn_ensureOpen`: whole turns.
-/

namespace VenueLink.Switchboard

open Exchange Relation

variable {α ρ : Type}

/-! ### Motions -/

/-- A single thing that the caller `k` does for its exchange, if it has one. -/
inductive Motion (k : Nat) : Option (Nat × Spec α) → Switchboard α ρ → Switchboard α ρ → Prop
  /-- The handshake is sent. -/
  | greet {errand : Option (Nat × Spec α)} {s s' : Switchboard α ρ} {frame : Json}
    (hframe : s.link.handshake = some frame) (h : s.transmit none frame = .ok s') :
    Motion k errand s s'
  /-- The request is sent. -/
  | request {ex : Nat} {spec : Spec α} {s s' : Switchboard α ρ}
    (h : s.transmit (some ex) spec.request = .ok s') : Motion k (some (ex, spec)) s s'
  | pause {errand : Option (Nat × Spec α)} (s : Switchboard α ρ) {duration : Nat}
      (h : duration ≠ 0) :
    Motion k errand s (s.arm duration (.ripen k))
  /-- An attempt to connect starts. -/
  | attempt {errand : Option (Nat × Spec α)} {s : Switchboard α ρ}
      (h : s.link.phase = .closed) :
    Motion k errand s { s with link := s.link.attempt, wire := s.wire.attempt }
  /-- An attempt to connect goes through. -/
  | connect {errand : Option (Nat × Spec α)} (s : Switchboard α ρ) (g : Nat) :
    Motion k errand s
      ({ s with wire := { s.wire with connection := some g, isOpen := true } }.announce g)
  | abandon {errand : Option (Nat × Spec α)} (s : Switchboard α ρ) (g : Nat) :
    Motion k errand s (s.abandon g)
  | fail {ex : Nat} {spec : Spec α} (s : Switchboard α ρ) :
    Motion k (some (ex, spec)) s (s.failExchange ex)
  | disarm {errand : Option (Nat × Spec α)} (s : Switchboard α ρ) :
      Motion k errand s (s.disarm k)

/-- The caller `k` goes from one state to another by motions for its exchange. -/
def Motions (k : Nat) (errand : Option (Nat × Spec α)) :
    Switchboard α ρ → Switchboard α ρ → Prop :=
  ReflTransGen (Motion k errand)

/-- A motion leaves the exchanges and the callers alone and sends no request, unless it is the
one that sends the request of the exchange, fails it, or takes the timers of the caller back. -/
theorem Motion.aside_or {k : Nat} {errand : Option (Nat × Spec α)} {s s' : Switchboard α ρ}
    (h : Motion k errand s s') :
    s.Aside [] s' ∨ s' = s.disarm k ∨ ∃ ex spec, errand = some (ex, spec) ∧
      (s.transmit (some ex) spec.request = .ok s' ∨ s' = s.failExchange ex) := by
  cases h with
  | greet hframe h => exact .inl (aside_transmit h)
  | request h => exact .inr (.inr ⟨_, _, rfl, .inl h⟩)
  | pause _ h => exact .inl (s.aside_arm h fun _ heq => by cases heq)
  | attempt h => exact .inl ((s.aside_link s.link.attempt).trans_nil (aside_wire _ rfl))
  | connect _ g =>
    refine .inl ((aside_wire s ?_).trans_nil (aside_announce _ g))
    rfl
  | abandon _ g => exact .inl (s.aside_abandon g)
  | fail => exact .inr (.inr ⟨_, _, rfl, .inr rfl⟩)
  | disarm => exact .inr (.inl rfl)

/-- What a caller does once it has access: the handshake, a pause, the request. -/
theorem authenticate_of_motions {R : Switchboard α ρ → Switchboard α ρ → Prop} {k ex : Nat}
    {spec : Spec α} (hrefl : ∀ s, R s s) (htrans : ∀ {s₁ s₂ s₃}, R s₁ s₂ → R s₂ s₃ → R s₁ s₃)
    (hgreet : ∀ {s s' frame}, s.link.handshake = some frame → s.transmit none frame = .ok s' →
      R s s')
    (hrequest : ∀ {s s'}, s.transmit (some ex) spec.request = .ok s' → R s s')
    (hpause : ∀ s, spec.settle ≠ 0 → R s (s.arm spec.settle (.ripen k))) (s : Switchboard α ρ)
    (readiness : Readiness) : R s (s.authenticate k ex spec readiness).1 := by
  have hsend : ∀ s : Switchboard α ρ, R s (s.request ex spec).1 := by
    intro s
    rw [Switchboard.request]
    split
    · next h => exact hrequest h
    · exact hrefl s
  have hsettle : ∀ s : Switchboard α ρ, R s (authenticate.pause k ex spec s).1 := by
    intro s
    rw [authenticate.pause]
    split
    · exact hsend s
    · next h => exact hpause s h
  rw [authenticate]
  split
  · exact hsend s
  · next handshake hhandshake =>
    split
    · exact hsettle s
    · split
      · next h => exact htrans (hgreet hhandshake h) (hsettle _)
      · exact hrefl s

/-! ### The connection of a caller -/

section Connection

variable (s : Switchboard α ρ) (k : Nat) (errand : Option (Nat × Spec α))

/-- A connection is asked for: one motion. -/
theorem motion_connect (g : Nat) : Motion k errand s (s.connect g).1 := by
  rw [fst_connect]
  split
  · exact .abandon s g
  · exact .connect s g

/-- A connection is looked for. -/
theorem motions_seekOpen : Motions k errand s (s.seekOpen k).1 := by
  rw [seekOpen]
  split
  · exact .refl
  · exact .refl
  · next hclosed =>
    have hattempt :
        Motions k errand s { s with link := s.link.attempt, wire := s.wire.attempt } :=
      .single (.attempt hclosed)
    rw [dial]
    dsimp only
    split
    · exact hattempt.tail (motion_connect _ k errand _)
    · next hstall => exact hattempt.tail (.pause _ hstall)

/-- A caller goes on towards an open connection. -/
theorem motions_access (stage : Stage) : Motions k errand s (s.access stage).1 := by
  simp only [access]
  split
  · exact .single (s.motion_connect k errand _)
  · exact .refl
  · exact .refl

/-- A caller is stopped at its stage. -/
theorem motions_stopAt (stage : Stage) : Motions k errand s (s.stopAt stage) := by
  cases stage with
  | connecting g ripe => exact .single (.abandon s g)
  | _ => exact .refl

end Connection

/-! ### The exchange of a caller -/

section Exchange

variable (k ex : Nat) (spec : Spec α)

/-- The request is sent, or fails the exchange. -/
theorem motions_request (s : Switchboard α ρ) :
    Motions k (some (ex, spec)) s (s.request ex spec).1 := by
  rw [Switchboard.request]
  split
  · next h => exact .single (.request h)
  · exact .refl

/-- The handshake goes before the request, and the pause after it. -/
theorem motions_authenticate (s : Switchboard α ρ) (readiness : Readiness) :
    Motions k (some (ex, spec)) s (s.authenticate k ex spec readiness).1 :=
  authenticate_of_motions (fun _ => .refl) .trans (fun hframe h => .single (.greet hframe h))
    (fun h => .single (.request h)) (fun s h => .single (.pause s h)) s readiness

/-- What comes after a connection has been reached. -/
theorem motions_proceed {s : Switchboard α ρ} {p : Switchboard α ρ × Access}
    (h : Motions k (some (ex, spec)) s p.1) :
    Motions k (some (ex, spec)) s (proceed k ex spec p).1 := by
  obtain ⟨s', access⟩ := p
  cases access with
  | granted readiness => exact h.trans (motions_authenticate k ex spec s' readiness)
  | _ => exact h

/-- A caller goes on with its request. -/
theorem motions_deliver (s : Switchboard α ρ) (stage : Stage) :
    Motions k (some (ex, spec)) s (s.deliver k ex spec stage).1 := by
  simp only [deliver]
  split
  · exact motions_request k ex spec s
  · exact motions_proceed k ex spec (s.motions_access k _ _)

/-- A caller that is late is stopped where it has come to. -/
theorem motions_stageAfter {s : Switchboard α ρ} {p : Switchboard α ρ × Delivery}
    (h : Motions k (some (ex, spec)) s p.1) (late : Bool) :
    Motions k (some (ex, spec)) s (stageAfter k ex late p).1 := by
  obtain ⟨s', d⟩ := p
  cases d with
  | blocked stage =>
    cases late with
    | true => exact (h.trans (s'.motions_stopAt k _ stage)).tail (.disarm _)
    | false => exact h
  | delivered => exact h.tail (.disarm _)
  | failed e => exact (h.tail (.fail s')).tail (.disarm _)

/-- A caller gets on with its exchange. -/
theorem motions_stride (s : Switchboard α ρ) (c : Caller α ρ) :
    Motions c.id (some (ex, spec)) s (s.stride c ex spec).1 := by
  by_cases hstage : c.stage = .waiting
  · rw [stride_of_waiting hstage]
    exact .refl
  · rw [stride_of_underway hstage]
    exact motions_stageAfter c.id ex spec (motions_deliver c.id ex spec s c.stage) c.late

/-- A caller begins an exchange, and sets a timer for its deadline unless it already waits for
the end. -/
theorem exists_motions_begin (s : Switchboard α ρ) :
    ∃ s₁, Motions k (some (s.correlator.next, spec)) (s.enrol spec) s₁ ∧
      ((s.begin k spec).1 = s₁ ∨ (s.begin k spec).1 = s₁.arm spec.timeout (.giveUp k)) := by
  have hpart := motions_stageAfter k s.correlator.next spec
    (motions_proceed k s.correlator.next spec ((s.enrol spec).motions_seekOpen k _))
    (decide (spec.timeout = 0))
  rw [begin_eq]
  generalize stageAfter k s.correlator.next (decide (spec.timeout = 0)) _ = p at hpart ⊢
  obtain ⟨s₁, stage⟩ := p
  refine ⟨s₁, hpart, ?_⟩
  cases stage with
  | waiting => exact .inl rfl
  | _ => exact .inr rfl

end Exchange

/-! ### Whole turns -/

/-- A part of a turn of the caller `k`. -/
inductive TurnPart (k : Nat) : Switchboard α ρ → Switchboard α ρ → Prop
  | motion {errand : Option (Nat × Spec α)} {s s' : Switchboard α ρ}
      (h : Motion k errand s s') :
    TurnPart k s s'
  | enrol (s : Switchboard α ρ) (spec : Spec α) : TurnPart k s (s.enrol spec)
  /-- A timer is set for the deadline. -/
  | guard (s : Switchboard α ρ) (duration : Nat) : TurnPart k s (s.arm duration (.giveUp k))
  | keep (s : Switchboard α ρ) {c : Caller α ρ} (hid : c.id = k) : TurnPart k s (s.keep c)
  | finish (s : Switchboard α ρ) (label : String) (r : ρ) : TurnPart k s (s.finish k label r)

/-- The caller `k` takes a turn, or several parts of one. -/
def Turn (k : Nat) : Switchboard α ρ → Switchboard α ρ → Prop :=
  ReflTransGen (TurnPart k)

/-- Motions are parts of a turn. -/
theorem Motions.turn {k : Nat} {errand : Option (Nat × Spec α)} {s s' : Switchboard α ρ}
    (h : Motions k errand s s') : Turn k s s' := by
  induction h with
  | refl => exact .refl
  | tail _ hlast ih => exact ih.tail (.motion hlast)

/-- A caller registers an exchange and begins with its request. -/
theorem turn_begin (s : Switchboard α ρ) (k : Nat) (spec : Spec α) :
    Turn k s (s.begin k spec).1 := by
  obtain ⟨s₁, hmotions, heq⟩ := exists_motions_begin k spec s
  have hturn : Turn k s s₁ := .head (.enrol s spec) hmotions.turn
  rcases heq with heq | heq
  · exact heq ▸ hturn
  · exact heq ▸ hturn.tail (.guard s₁ spec.timeout)

/-- A caller starts on a plan. -/
theorem turn_pursue (s : Switchboard α ρ) (k : Nat) (label : String) {n : Nat}
    (plan : Plan α ρ n) : Turn k s (s.pursue k label plan) := by
  induction plan generalizing s with
  | report r => exact .single (.finish s label r)
  | exchange spec next ih =>
    have hbegin := s.turn_begin k spec
    rw [pursue_exchange]
    split
    · next r _ => exact hbegin.trans (ih r _)
    · exact hbegin.tail (.keep _ rfl)

/-- A caller gets on from where it is. -/
theorem turn_tend (s : Switchboard α ρ) (c : Caller α ρ) : Turn c.id s (s.tend c) := by
  cases hg : c.goal with
  | readiness tell =>
    have haccess := (s.motions_access c.id none c.stage).turn
    rw [tend_readiness s hg]
    split
    · exact haccess.tail (.keep _ rfl)
    · exact haccess.tail (.finish _ _ _)
    · exact haccess.tail (.finish _ _ _)
  | exchange ex spec n next =>
    have hstride := (motions_stride ex spec s c).turn
    rw [tend_exchange s hg]
    split
    · exact hstride.trans (turn_pursue _ _ _ _)
    · exact hstride.tail (.keep _ rfl)

/-- A new caller asks for a connection. -/
theorem turn_ensureOpen (s : Switchboard α ρ) (label : String)
    (tell : Except OperationError Readiness → ρ) :
    Turn s.next s.enlist (s.ensureOpen label tell) := by
  have hseek := (s.enlist.motions_seekOpen s.next none).turn
  rw [ensureOpen_eq]
  split
  · exact hseek.tail (.keep _ rfl)
  · exact hseek.tail (.finish _ _ _)
  · exact hseek.tail (.finish _ _ _)

end VenueLink.Switchboard

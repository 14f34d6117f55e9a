import VenueLink.Proofs.Switchboard.Handshake

/-!
# What is taken in during a turn

In its turn a caller hears from the wire: the replies to what it sends, and the news of a
connection that it has opened. All this goes behind the signals that have been taken in before,
and replies come only while the link and the wire are both open. They stay so until the turn is
over, and then no request fails: what the caller does to the exchanges is to begin a new one.

## Main results

* `Motion.gathers`, `Turn.gathers`: what is taken in by a single motion of a caller, and during
  its turn.
* `deliver_ne_failed`: no request fails on an open connection.
* `entries_tend`: the exchanges after a turn on an open connection.
-/

namespace VenueLink.Switchboard

open Exchange Correlator

variable {α ρ : Type}

/-- Frames can be sent: the link is open, and so is the wire. -/
def Connected (s : Switchboard α ρ) : Prop :=
  s.link.isOpen ∧ s.wire.isOpen

/-- The signals that have been taken in are about to be handled. -/
def Attends (s : Switchboard α ρ) : Prop :=
  s.inbox ≠ [] → .signals ∈ s.ready

/-- Between `s` and `s'` signals may have been taken in, behind those that were there, and
messages are among them only if the connection is open at the end. An open connection stays as
it is. -/
structure Gathers (s s' : Switchboard α ρ) : Prop where
  manual_eq : s'.manual = s.manual
  link_eq : s.link.isOpen → s'.link = s.link
  isOpen : s.wire.isOpen → s'.wire.isOpen
  inbox : s.inbox <+: s'.inbox
  messages : s'.Connected ∨ ∀ g m, .message g m ∈ s'.inbox → .message g m ∈ s.inbox
  attends : s.manual = false → s.Attends → s'.Attends

section Gathers

variable {s s₁ s₂ s₃ s' : Switchboard α ρ}

/-- An open connection stays open. -/
theorem Gathers.connected (h : Gathers s s') (hc : s.Connected) : s'.Connected :=
  ⟨(h.link_eq hc.1).symm ▸ hc.1, h.isOpen hc.2⟩

/-- A change to what has nothing to do with the signals; more tasks may be ready. -/
theorem gathers_of_eq (hmanual : s'.manual = s.manual) (hlink : s'.link = s.link)
    (hwire : s'.wire = s.wire) (hinbox : s'.inbox = s.inbox) (hready : s.ready ⊆ s'.ready) :
    Gathers s s' where
  manual_eq := hmanual
  link_eq _ := hlink
  isOpen h := hwire ▸ h
  inbox := hinbox ▸ List.prefix_rfl
  messages := .inr fun _ _ hm => hinbox ▸ hm
  attends _ h hne := hready (h (hinbox ▸ hne))

/-- Nothing is taken in. -/
theorem Gathers.refl (s : Switchboard α ρ) : Gathers s s :=
  gathers_of_eq rfl rfl rfl rfl (List.Subset.refl _)

/-- Two stretches one after the other. -/
theorem Gathers.trans (h₁ : Gathers s₁ s₂) (h₂ : Gathers s₂ s₃) : Gathers s₁ s₃ where
  manual_eq := h₂.manual_eq.trans h₁.manual_eq
  link_eq h := by
    have heq := h₁.link_eq h
    exact (h₂.link_eq (heq ▸ h)).trans heq
  isOpen h := h₂.isOpen (h₁.isOpen h)
  inbox := h₁.inbox.trans h₂.inbox
  messages := by
    rcases h₂.messages with hconnected | hold₂
    · exact .inl hconnected
    · refine h₁.messages.imp h₂.connected fun hold₁ g m hm => hold₁ g m (hold₂ g m hm)
  attends hmanual h := h₂.attends (h₁.manual_eq.trans hmanual) (h₁.attends hmanual h)

/-! ### Signals that come in -/

/-- Waking callers changes nothing but what is ready. -/
theorem wakeWhere_eq (s : Switchboard α ρ) (p : Caller α ρ → Bool) :
    s.wakeWhere p = { s with ready := (s.wakeWhere p).ready } := by
  have hall : ∀ (l : List (Caller α ρ)) (s : Switchboard α ρ),
      l.foldl (fun s c => s.enqueue (.caller c.id)) s =
        { s with ready := (l.foldl (fun s c => s.enqueue (.caller c.id)) s).ready } := by
    intro l
    induction l with
    | nil => exact fun _ => rfl
    | cons c rest ih =>
      intro s
      rw [List.foldl_cons, ih, enqueue]
  exact hall _ s

/-- Only what is ready changes when callers are woken. -/
theorem foldl_wakeWaiting_eq (l : List Nat) (s : Switchboard α ρ) :
    l.foldl wakeWaiting s = { s with ready := (l.foldl wakeWaiting s).ready } := by
  induction l generalizing s with
  | nil => rfl
  | cons id rest ih => rw [List.foldl_cons, ih, wakeWaiting, wakeWhere_eq]

/-- Callers are woken. -/
theorem gathers_wakeWhere (s : Switchboard α ρ) (p : Caller α ρ → Bool) :
    Gathers s (s.wakeWhere p) := by
  have hready : s.ready ⊆ (s.wakeWhere p).ready :=
    fun _ ht => (s.aside_wakeWhere p).mem_ready ht
  rw [wakeWhere_eq]
  exact gathers_of_eq rfl rfl rfl rfl hready

/-- It stays as it is who handles the signals. -/
theorem manual_hear (s : Switchboard α ρ) (signals : List Signal) :
    (s.hear signals).manual = s.manual := by
  rw [hear]
  split
  · rfl
  · dsimp only
    split <;> rfl

/-- Signals that are taken in are about to be handled. -/
theorem Attends.hear (h : s.Attends) (hmanual : s.manual = false) (signals : List Signal) :
    (s.hear signals).Attends := by
  rw [Switchboard.hear]
  split
  · exact h
  · dsimp only
    rw [if_neg (by simp [hmanual])]
    exact fun _ => mem_enqueue _ _

/-- Signals are taken in; messages only over an open connection. -/
theorem gathers_hear (s : Switchboard α ρ) {signals : List Signal}
    (h : s.Connected ∨ ∀ g m, .message g m ∉ signals) : Gathers s (s.hear signals) where
  manual_eq := s.manual_hear signals
  link_eq _ := s.link_hear signals
  isOpen hopen := by rwa [wire_hear]
  inbox := by
    rw [inbox_hear]
    exact List.prefix_append _ _
  messages := by
    rw [Connected, link_hear, wire_hear, inbox_hear]
    exact h.imp_right fun hno g m hm => (List.mem_append.mp hm).resolve_right (hno g m)
  attends hmanual hattends := hattends.hear hmanual signals

/-- A frame is sent, and replies come in. -/
theorem gathers_transmit {exchange : Option Nat} {frame : Json}
    (h : s.transmit exchange frame = .ok s') : Gathers s s' := by
  obtain ⟨hlink, w, signals, hsend, rfl⟩ := exists_send_of_transmit h
  rw [Wire.send] at hsend
  split at hsend
  · next hopen =>
    cases hsend
    have hmore : Gathers s { s with wire := { s.wire with
        sent := s.wire.sent ++ [⟨frame, s.now, s.wire.connection.getD 0, exchange⟩] } } :=
      { Gathers.refl s with }
    exact hmore.trans (gathers_hear _ (.inl ⟨hlink, hopen⟩))
  · cases hsend

/-! ### The turn of a caller -/

/-- A timer is set. -/
theorem gathers_arm (s : Switchboard α ρ) (duration : Nat) (alarm : Alarm) :
    Gathers s (s.arm duration alarm) :=
  gathers_of_eq rfl rfl rfl rfl (List.Subset.refl _)

/-- An attempt that is given up was none on an open link. -/
theorem gathers_abandon (s : Switchboard α ρ) (g : Nat) : Gathers s (s.abandon g) := by
  rw [abandon]
  split
  · exact .refl s
  · refine Gathers.trans ?_ (gathers_wakeWhere _ _)
    refine { Gathers.refl s with link_eq := fun hopen => ?_, messages := .inr fun _ _ hm => hm }
    rw [Link.abandon, if_neg]
    rintro ⟨-, hconnecting⟩
    have hphase := phase_of_isOpen hopen
    rw [hconnecting] at hphase
    cases hphase

/-- A connection announces itself. -/
theorem gathers_announce (s : Switchboard α ρ) (g : Nat) : Gathers s (s.announce g) := by
  rw [announce]
  split
  · exact gathers_hear s (.inr (by simp))
  · exact s.gathers_arm _ _

/-- A link that is open is not about to be opened, and what a caller is told by its own motion
are no messages but the replies to what it sends. -/
theorem Motion.gathers {k : Nat} {errand : Option (Nat × Spec α)} (h : Motion k errand s s') :
    Gathers s s' := by
  cases h with
  | greet _ h => exact gathers_transmit h
  | request h => exact gathers_transmit h
  | pause _ _ => exact s.gathers_arm _ _
  | attempt hclosed =>
    refine { Gathers.refl s with link_eq := fun hopen => ?_, messages := .inr fun _ _ hm => hm }
    rw [phase_of_isOpen hopen] at hclosed
    cases hclosed
  | connect _ g =>
    have hthrough :
        Gathers s { s with wire := { s.wire with connection := some g, isOpen := true } } :=
      { Gathers.refl s with isOpen := fun _ => rfl, messages := .inr fun _ _ hm => hm }
    exact hthrough.trans (gathers_announce _ g)
  | abandon _ g => exact s.gathers_abandon g
  | fail => exact gathers_of_eq rfl rfl rfl rfl (List.Subset.refl _)
  | disarm => exact gathers_of_eq rfl rfl rfl rfl (List.Subset.refl _)

/-- A caller takes in the signals of what it does. -/
theorem Motions.gathers {k : Nat} {errand : Option (Nat × Spec α)} (h : Motions k errand s s') :
    Gathers s s' := by
  induction h with
  | refl => exact .refl s
  | tail _ hlast ih => exact ih.trans hlast.gathers

/-- So it does in a part of its turn. -/
theorem TurnPart.gathers {k : Nat} (h : TurnPart k s s') : Gathers s s' := by
  cases h with
  | motion h => exact h.gathers
  | enrol spec => exact gathers_of_eq rfl rfl rfl rfl fun _ => (s.aside_watch _).mem_ready
  | guard => exact s.gathers_arm _ _
  | _ => exact gathers_of_eq rfl rfl rfl rfl (List.Subset.refl _)

/-- And in a turn. -/
theorem Turn.gathers {k : Nat} (h : Turn k s s') : Gathers s s' := by
  induction h with
  | refl => exact .refl s
  | tail _ hlast ih => exact ih.trans hlast.gathers

/-- A caller goes. -/
theorem gathers_dismiss (s : Switchboard α ρ) (k : Nat) : Gathers s (s.dismiss k) :=
  gathers_of_eq rfl rfl rfl rfl (List.Subset.refl _)

end Gathers

/-! ### A turn on an open connection -/

section Connected

variable {s : Switchboard α ρ} (h : s.Connected)
include h

/-- A request fails the exchange, not the delivery. -/
theorem request_ne_failed (exchange : Nat) (spec : Spec α) (e : OperationError) :
    (s.request exchange spec).2 ≠ .failed e := by
  rw [(request_eq_delivered_iff s exchange spec).mpr h]
  exact fun heq => by cases heq

/-- So does a handshake. -/
theorem authenticate_ne_failed (k exchange : Nat) (spec : Spec α) (readiness : Readiness)
    (e : OperationError) : (s.authenticate k exchange spec readiness).2 ≠ .failed e := by
  have hpause : ∀ s : Switchboard α ρ, s.Connected →
      (authenticate.pause k exchange spec s).2 ≠ .failed e := by
    intro s h
    rw [authenticate.pause]
    split
    · exact request_ne_failed h exchange spec e
    · exact fun heq => by cases heq
  rw [authenticate]
  split
  · exact request_ne_failed h exchange spec e
  · next handshake _ =>
    split
    · exact hpause s h
    · obtain ⟨s', hsend, -⟩ := exists_transmit h.1 h.2 none handshake
      rw [hsend]
      exact hpause s' ((gathers_transmit hsend).connected h)

/-- No request fails on an open connection, which leaves nobody to connect. -/
theorem deliver_ne_failed {stage : Stage} (hstage : stage.attempt? = none) (k exchange : Nat)
    (spec : Spec α) (e : OperationError) : (s.deliver k exchange spec stage).2 ≠ .failed e := by
  cases stage with
  | connecting g ripe => cases hstage
  | opening =>
    change (proceed k exchange spec (s, s.awaitOpen)).2 ≠ .failed e
    rw [awaitOpen_of_isOpen h.1]
    exact authenticate_ne_failed h k exchange spec .opened e
  | settling ripe =>
    cases ripe with
    | true => exact request_ne_failed h exchange spec e
    | false => exact fun heq => by cases heq
  | waiting => exact fun heq => by cases heq

omit h in
/-- A request that has not failed leaves the exchanges as they are. -/
theorem correlator_stageAfter {p : Switchboard α ρ × Delivery} (hp : ∀ e, p.2 ≠ .failed e)
    (k exchange : Nat) (late : Bool) :
    (stageAfter k exchange late p).1.correlator = p.1.correlator := by
  obtain ⟨s', d⟩ := p
  cases d with
  | blocked stage =>
    cases late with
    | true => exact (s'.aside_stopAt stage).correlator_eq
    | false => rfl
  | delivered => rfl
  | failed e => exact absurd rfl (hp e)

/-- A caller that makes no attempt fails no exchange. -/
theorem correlator_stride {c : Caller α ρ} (hstage : c.stage.attempt? = none) (exchange : Nat)
    (spec : Spec α) : (s.stride c exchange spec).1.correlator = s.correlator := by
  by_cases hwaiting : c.stage = .waiting
  · rw [stride_of_waiting hwaiting]
  · rw [stride_of_underway hwaiting,
      correlator_stageAfter (deliver_ne_failed h hstage c.id exchange spec)]
    exact (s.aside_deliver c.id exchange spec c.stage).correlator_eq

/-- Nor does one that begins with an exchange. -/
theorem correlator_begin (k : Nat) (spec : Spec α) :
    (s.begin k spec).1.correlator = (s.enrol spec).correlator := by
  have hconnected : (s.enrol spec).Connected := h
  have hseek : (s.enrol spec).seekOpen k = (s.enrol spec, .granted .alreadyOpen) := by
    rw [seekOpen, phase_of_isOpen hconnected.1]
  have haside := (s.enrol spec).aside_authenticate k s.correlator.next spec .alreadyOpen
  have hpart := correlator_stageAfter
    (authenticate_ne_failed hconnected k s.correlator.next spec .alreadyOpen) k
      s.correlator.next
    (decide (spec.timeout = 0))
  rw [begin_eq, hseek, proceed]
  generalize stageAfter k s.correlator.next (decide (spec.timeout = 0)) _ = p at hpart ⊢
  obtain ⟨s₁, stage⟩ := p
  have heq : s₁.correlator = (s.enrol spec).correlator := hpart.trans haside.correlator_eq
  cases stage <;> exact heq

/-- A caller that starts on a plan begins an exchange, behind those that are open, or reports.
-/
theorem entries_pursue (hs : s.correlator.Sound) (k : Nat) (label : String) {n : Nat}
    (plan : Plan α ρ n) :
    s.correlator.entries <+: (s.pursue k label plan).correlator.entries := by
  cases plan with
  | report r => exact List.prefix_rfl
  | exchange spec next =>
    have hbegin := correlator_begin h k spec
    have hopen : (s.begin k spec).1.ending? s.correlator.next (s.begin k spec).2 = none := by
      refine ending?_eq_none_iff.mpr fun _ => ?_
      rw [hbegin]
      exact outcome?_next hs
    rw [pursue_exchange, hopen]
    change s.correlator.entries <+: (s.begin k spec).1.correlator.entries
    rw [hbegin]
    exact List.prefix_append _ _

/-- In a turn on an open connection no exchange ends, and a new one goes behind those that are
open. -/
theorem entries_tend (hs : s.correlator.Sound) {c : Caller α ρ}
    (hstage : c.stage.attempt? = none) :
    s.correlator.entries <+: (s.tend c).correlator.entries := by
  cases hg : c.goal with
  | readiness tell =>
    have haccess := (s.aside_access c.stage).correlator_eq
    rw [tend_readiness s hg, ← haccess]
    split <;> exact List.prefix_rfl
  | exchange exchange spec n next =>
    have hstride := correlator_stride h hstage exchange spec
    have hconnected := (motions_stride exchange spec s c).gathers.connected h
    rw [tend_exchange s hg, ← hstride]
    split
    · exact entries_pursue hconnected (hstride ▸ hs) _ _ _
    · exact List.prefix_rfl

end Connected

end VenueLink.Switchboard

import VenueLink.Proofs.Switchboard.Run
import Mathlib.Algebra.BigOperators.Ring.List
import Mathlib.Algebra.Order.BigOperators.Group.List
import Mathlib.Algebra.Order.Group.Nat
import Mathlib.Data.List.Perm.Subperm
import Mathlib.Tactic.Ring

/-!
# Work

All that is there to be done at an instant is counted as work, with a price for each signal,
task, watch that has yielded and caller that covers whatever may come of it: a turn may send
frames, whose replies wake callers, and start an attempt to connect, which may be answered at
once; but it brings its caller nearer to the end of its plan.

The prices depend on how many callers there are, `k` at most, and on how many replies the wire
gives to a frame, `r` at most. `Stirs k r n s s'` says that between `s` and `s'` no more becomes
ready than the price `n` covers.

## Main results

* `stirs_hear`, `Rouses.stirs`: signals and callers that are woken.
* `spends_stride`, `spends_begin`: how far a caller gets with its request, and what becomes
  ready by that, is covered by the stage that it was at.
-/

namespace VenueLink

open Exchange

variable {α ρ : Type}

/-! ### Prices -/

/-- The price of a frame: each reply may wake all callers, and the replies are to be handled. -/
def frameWork (k r : Nat) : Nat :=
  r * k + 1

/-- The price of a signal. A connection that is open is sent the handshake. -/
def Signal.work (k r : Nat) : Signal → Nat
  | .opened _ => frameWork k r + k
  | .message _ _ => k
  | .closed _ _ => 2 * k

/-- The price of a task. A watch may yield, and then its exchange expires. -/
def Task.work (k r : Nat) : Task → Nat
  | .announce _ => frameWork k r + k + 2
  | .watch _ => k + 3
  | .expire _ => k + 1
  | _ => 1

/-- The price of what a caller at a stage may do before it waits for the end of its exchange. -/
def Stage.work (k r : Nat) : Stage → Nat
  | .connecting _ _ => 2 * frameWork k r + 2 * k + 1
  | .opening => frameWork k r
  | .settling _ => frameWork k r
  | .waiting => 0

/-- The price of an exchange from its registration on, its watch included. -/
def exchangeWork (k r : Nat) : Nat :=
  (k + 3) + (2 * frameWork k r + 2 * k + 1)

/-- The price of a caller: where it is, and the exchanges that it may still register. -/
def Caller.work (k r : Nat) (c : Caller α ρ) : Nat :=
  c.stage.work k r + (c.remaining - 1) * exchangeWork k r

/-- How many replies the wire has in all. -/
def Wire.replyCount (w : Wire) : Nat :=
  (w.responders.flatMap Responder.replies).length

namespace Switchboard

/-- The work that is there apart from what the callers may still do. -/
def bustle (k r : Nat) (s : Switchboard α ρ) : Nat :=
  (s.inbox.map (Signal.work k r)).sum + (s.ready.map (Task.work k r)).sum +
    s.yielded.length * (k + 2)

/-- The work of several callers. -/
def callersWork (k r : Nat) (l : List (Caller α ρ)) : Nat :=
  (l.map (Caller.work k r)).sum

/-- All the work that is there. -/
def work (k r : Nat) (s : Switchboard α ρ) : Nat :=
  s.bustle k r + callersWork k r s.callers

/-- There are at most `k` callers, and the wire gives at most `r` replies. -/
structure Within (k r : Nat) (s : Switchboard α ρ) : Prop where
  callers : s.callers.length ≤ k
  replies : s.wire.replyCount ≤ r

/-- Between `s` and `s'` the callers stay as they are, and at most `n` more work turns up. -/
structure Stirs (k r n : Nat) (s s' : Switchboard α ρ) : Prop where
  callers_eq : s'.callers = s.callers
  responders_eq : s'.wire.responders = s.wire.responders
  bustle_le : s.Within k r → s'.bustle k r ≤ s.bustle k r + n

variable {k r : Nat}

/-- Where nothing happens no work turns up. -/
theorem Stirs.refl (s : Switchboard α ρ) : Stirs k r 0 s s :=
  ⟨rfl, rfl, fun _ => Nat.le_refl _⟩

/-- The numbers of callers and replies stay bounded. -/
theorem Stirs.within {n : Nat} {s s' : Switchboard α ρ} (h : Stirs k r n s s')
    (hs : s.Within k r) : s'.Within k r where
  callers := h.callers_eq ▸ hs.callers
  replies := by
    rw [Wire.replyCount, h.responders_eq]
    exact hs.replies

/-- The work of two stretches adds up. -/
theorem Stirs.trans {m n : Nat} {s₁ s₂ s₃ : Switchboard α ρ} (h₁ : Stirs k r m s₁ s₂)
    (h₂ : Stirs k r n s₂ s₃) : Stirs k r (m + n) s₁ s₃ where
  callers_eq := h₂.callers_eq.trans h₁.callers_eq
  responders_eq := h₂.responders_eq.trans h₁.responders_eq
  bustle_le hs := by
    have hfirst := h₁.bustle_le hs
    have hsecond := h₂.bustle_le (h₁.within hs)
    omega

/-- The work may be estimated more coarsely. -/
theorem Stirs.mono {m n : Nat} {s s' : Switchboard α ρ} (h : Stirs k r m s s') (hle : m ≤ n) :
    Stirs k r n s s' where
  callers_eq := h.callers_eq
  responders_eq := h.responders_eq
  bustle_le hs := Nat.le_trans (h.bustle_le hs) (Nat.add_le_add_left hle _)

/-- A change to what makes no work. -/
theorem stirs_of_eq {s s' : Switchboard α ρ} (hcallers : s'.callers = s.callers)
    (hresponders : s'.wire.responders = s.wire.responders) (hinbox : s'.inbox = s.inbox)
    (hready : s'.ready = s.ready) (hyielded : s'.yielded = s.yielded) : Stirs k r 0 s s' where
  callers_eq := hcallers
  responders_eq := hresponders
  bustle_le _ := by
    rw [bustle, bustle, hinbox, hready, hyielded]
    exact Nat.le_refl _

/-! ### Tasks and signals -/

/-- One more task is ready. -/
theorem bustle_ready_append (s : Switchboard α ρ) (tasks : List Task) :
    ({ s with ready := s.ready ++ tasks } : Switchboard α ρ).bustle k r =
      s.bustle k r + (tasks.map (Task.work k r)).sum := by
  rw [bustle, bustle]
  simp only [List.map_append, List.sum_append]
  omega

/-- A task that becomes ready costs its price. -/
theorem stirs_enqueue (s : Switchboard α ρ) (t : Task) :
    Stirs k r (t.work k r) s (s.enqueue t) := by
  rw [enqueue]
  split
  · exact (Stirs.refl s).mono (Nat.zero_le _)
  · refine ⟨rfl, rfl, fun _ => Nat.le_of_eq ?_⟩
    simpa using s.bustle_ready_append (k := k) (r := r) [t]

/-- Taking signals in is the work of the signals, and the task to handle them. -/
theorem stirs_hear (s : Switchboard α ρ) (signals : List Signal) :
    Stirs k r ((signals.map (Signal.work k r)).sum + 1) s (s.hear signals) := by
  have hinbox : Stirs k r (signals.map (Signal.work k r)).sum s
      { s with inbox := s.inbox ++ signals } := by
    refine ⟨rfl, rfl, fun _ => ?_⟩
    rw [bustle, bustle]
    simp only [List.map_append, List.sum_append]
    omega
  rw [hear]
  split
  · exact (Stirs.refl s).mono (Nat.zero_le _)
  · dsimp only
    split
    · exact hinbox.mono (Nat.le_succ _)
    · exact hinbox.trans (stirs_enqueue _ .signals)

/-- A timer costs nothing at its instant. -/
theorem stirs_arm (s : Switchboard α ρ) (duration : Nat) (alarm : Alarm) :
    Stirs k r 0 s (s.arm duration alarm) :=
  stirs_of_eq rfl rfl rfl rfl rfl

/-- Nor does one that is taken back. -/
theorem stirs_disarm (s : Switchboard α ρ) (id : Nat) : Stirs k r 0 s (s.disarm id) :=
  stirs_of_eq rfl rfl rfl rfl rfl

/-! ### Waking callers -/

/-- Between `s` and `s'` some callers are woken that were not awake, each once. -/
def Rouses (s s' : Switchboard α ρ) : Prop :=
  ∃ more, s' = { s with ready := s.ready ++ more } ∧ more.Nodup ∧
    (∀ t ∈ more, t ∉ s.ready) ∧ ∀ t ∈ more, ∃ c ∈ s.callers, t = .caller c.id

/-- Nobody is woken. -/
theorem Rouses.refl (s : Switchboard α ρ) : s.Rouses s :=
  ⟨[], by simp⟩

/-- Some are woken, and then others. -/
theorem Rouses.trans {s₁ s₂ s₃ : Switchboard α ρ} (h₁ : s₁.Rouses s₂) (h₂ : s₂.Rouses s₃) :
    s₁.Rouses s₃ := by
  obtain ⟨xs, rfl, hxs, hnew₁, hcallers₁⟩ := h₁
  obtain ⟨ys, rfl, hys, hnew₂, hcallers₂⟩ := h₂
  refine ⟨xs ++ ys, by rw [List.append_assoc], ?_, fun t ht => ?_, fun t ht => ?_⟩
  · refine List.nodup_append.mpr ⟨hxs, hys, fun t htx u huy heq => ?_⟩
    exact hnew₂ u huy (List.mem_append_right _ (heq ▸ htx))
  · rcases List.mem_append.mp ht with h | h
    · exact hnew₁ t h
    · exact fun hmem => hnew₂ t h (List.mem_append_left _ hmem)
  · exact (List.mem_append.mp ht).elim (hcallers₁ t) (hcallers₂ t)

/-- One caller is woken. -/
theorem rouses_enqueue {s : Switchboard α ρ} {c : Caller α ρ} (hc : c ∈ s.callers) :
    s.Rouses (s.enqueue (.caller c.id)) := by
  rw [enqueue]
  split
  · exact .refl s
  · next hnew =>
    refine ⟨[.caller c.id], rfl, List.nodup_singleton _, fun t ht => ?_, fun t ht => ?_⟩
    · exact List.mem_singleton.mp ht ▸ hnew
    · exact ⟨c, hc, List.mem_singleton.mp ht⟩

/-- Callers are woken together. -/
theorem rouses_wakeWhere (s : Switchboard α ρ) (p : Caller α ρ → Bool) :
    s.Rouses (s.wakeWhere p) := by
  have hfold : ∀ (l : List (Caller α ρ)) (s : Switchboard α ρ), (∀ c ∈ l, c ∈ s.callers) →
      s.Rouses (l.foldl (fun s c => s.enqueue (.caller c.id)) s) := by
    intro l
    induction l with
    | nil => exact fun s _ => .refl s
    | cons c rest ih =>
      intro s hl
      exact (rouses_enqueue (hl c List.mem_cons_self)).trans
        (ih _ fun d hd => hl d (List.mem_cons_of_mem _ hd))
  exact hfold _ s fun c hc => (List.mem_filter.mp hc).1

/-- Those who wait for exchanges are woken. -/
theorem rouses_foldl_wakeWaiting (l : List Nat) (s : Switchboard α ρ) :
    s.Rouses (l.foldl wakeWaiting s) := by
  induction l generalizing s with
  | nil => exact .refl s
  | cons id rest ih => exact (s.rouses_wakeWhere _).trans (ih _)

/-- No more callers are woken than there are. -/
theorem Rouses.stirs {s s' : Switchboard α ρ} (h : s.Rouses s') : Stirs k r k s s' := by
  obtain ⟨more, rfl, hnd, -, hcallers⟩ := h
  refine ⟨rfl, rfl, fun hs => ?_⟩
  have hsub : more ⊆ s.callers.map fun c => .caller c.id := fun t ht => by
    obtain ⟨c, hc, rfl⟩ := hcallers t ht
    exact List.mem_map_of_mem hc
  have hlength : more.length ≤ k := by
    have := (hnd.subperm hsub).length_le
    rw [List.length_map] at this
    exact Nat.le_trans this hs.callers
  have hwork : (more.map (Task.work k r)).sum = more.length := by
    rw [List.map_congr_left (g := fun _ => 1) fun t ht => by
      obtain ⟨c, -, rfl⟩ := hcallers t ht
      rfl]
    simp
  have := s.bustle_ready_append (k := k) (r := r) more
  omega

/-- An attempt that is given up may wake all callers. -/
theorem stirs_abandon (s : Switchboard α ρ) (generation : Nat) :
    Stirs k r k s (s.abandon generation) := by
  rw [abandon]
  split
  · exact (Stirs.refl s).mono (Nat.zero_le _)
  · have hlink : Stirs k r 0 s { s with link := s.link.abandon generation } :=
      stirs_of_eq rfl rfl rfl rfl rfl
    exact (hlink.trans (rouses_wakeWhere _ _).stirs).mono (Nat.le_of_eq (Nat.zero_add k))

/-! ### Frames -/

/-- The replies to a frame are no more than all replies. -/
theorem length_replies_le (w : Wire) (frame : Json) :
    ((w.replies frame).flatMap w.deliver).length ≤ w.replyCount := by
  have hreplies : (w.replies frame).length ≤ w.replyCount := by
    rw [Wire.replies, Wire.replyCount, List.length_flatMap, List.length_flatMap]
    exact (List.filter_sublist.map _).sum_le_sum fun _ _ => Nat.zero_le _
  have hone : ∀ m, (w.deliver m).length ≤ 1 := by
    intro m
    rw [Wire.deliver, List.length_map]
    cases w.connection <;> simp
  rw [List.length_flatMap]
  refine Nat.le_trans (List.sum_le_card_nsmul _ 1 fun n hn => ?_) ?_
  · obtain ⟨m, -, rfl⟩ := List.mem_map.mp hn
    exact hone m
  · simpa using hreplies

/-- A frame costs its price. -/
theorem stirs_send {s : Switchboard α ρ} {exchange : Option Nat} {frame : Json} {w : Wire}
    {signals : List Signal} (h : s.wire.send s.now exchange frame = .ok (w, signals)) :
    Stirs k r (frameWork k r) s ({ s with wire := w }.hear signals) := by
  rw [Wire.send] at h
  split at h
  · cases h
    have hwire : Stirs k r 0 s { s with
        wire := { s.wire with
          sent := s.wire.sent ++ [⟨frame, s.now, s.wire.connection.getD 0, exchange⟩] } } :=
      stirs_of_eq rfl rfl rfl rfl rfl
    refine ⟨(hwire.trans (stirs_hear _ _)).callers_eq,
      (hwire.trans (stirs_hear _ _)).responders_eq,
      fun hs => Nat.le_trans ((hwire.trans (stirs_hear _ _)).bustle_le hs) ?_⟩
    have hmessages : ∀ n ∈ (((s.wire.replies frame).flatMap s.wire.deliver).map
        (Signal.work k r)), n ≤ k := by
      intro n hn
      obtain ⟨x, hx, rfl⟩ := List.mem_map.mp hn
      obtain ⟨m, -, hx⟩ := List.mem_flatMap.mp hx
      obtain ⟨g, -, rfl⟩ := List.mem_map.mp hx
      exact Nat.le_refl k
    have hsum := List.sum_le_card_nsmul _ k hmessages
    rw [List.length_map, Nat.nsmul_eq_mul] at hsum
    have hcount := Nat.mul_le_mul_right k
      (Nat.le_trans (length_replies_le s.wire frame) hs.replies)
    rw [frameWork]
    omega
  · cases h

/-- So does one that is sent by somebody. -/
theorem stirs_transmit {s s' : Switchboard α ρ} {exchange : Option Nat} {frame : Json}
    (h : s.transmit exchange frame = .ok s') : Stirs k r (frameWork k r) s s' := by
  obtain ⟨-, w, signals, hsend, rfl⟩ := exists_send_of_transmit h
  exact stirs_send hsend

/-- And the handshake. -/
theorem stirs_greet (s : Switchboard α ρ) : Stirs k r (frameWork k r) s s.greet := by
  rw [greet]
  split
  · exact (Stirs.refl s).mono (Nat.zero_le _)
  · split
    · next h => exact stirs_send h
    · exact (Stirs.refl s).mono (Nat.zero_le _)

/-- An announcement costs a frame and a turn of everybody. -/
theorem stirs_announce (s : Switchboard α ρ) (generation : Nat) :
    Stirs k r (frameWork k r + k + 1) s (s.announce generation) := by
  rw [announce]
  split
  · simpa [Signal.work] using s.stirs_hear (k := k) (r := r) [.opened generation]
  · exact (s.stirs_arm _ _).mono (Nat.zero_le _)

/-! ### The delivery of a request -/

/-- What a caller may still do with its access. -/
def Access.work (k r : Nat) : Access → Nat
  | .blocked stage => stage.work k r
  | .granted .opened => frameWork k r
  | .granted .alreadyOpen => 2 * frameWork k r
  | .refused _ => 0

/-- What a caller may still do after a delivery. -/
def Delivery.work (k r : Nat) : Delivery → Nat
  | .blocked stage => stage.work k r
  | _ => 0

/-- From `s` a caller comes to `p`; the work that this makes and what is left to the caller cost
at most `n`. -/
def Spends (k r n : Nat) {β : Type} (price : β → Nat) (s : Switchboard α ρ)
    (p : Switchboard α ρ × β) : Prop :=
  ∃ m, Stirs k r m s p.1 ∧ m + price p.2 ≤ n

/-- The price may be estimated more coarsely. -/
theorem Spends.mono {m n : Nat} {β : Type} {price : β → Nat} {s : Switchboard α ρ}
    {p : Switchboard α ρ × β} (h : Spends k r m price s p) (hle : m ≤ n) :
    Spends k r n price s p := by
  obtain ⟨l, hstirs, hl⟩ := h
  exact ⟨l, hstirs, Nat.le_trans hl hle⟩

/-- What comes before adds to the price. -/
theorem Spends.of_stirs {m n : Nat} {β : Type} {price : β → Nat} {s s₁ : Switchboard α ρ}
    {p : Switchboard α ρ × β} (h₁ : Stirs k r m s s₁) (h₂ : Spends k r n price s₁ p) :
    Spends k r (m + n) price s p := by
  obtain ⟨l, hstirs, hl⟩ := h₂
  exact ⟨m + l, h₁.trans hstirs, by omega⟩

/-- Whoever waits for the link to open has a frame left to pay. -/
theorem work_awaitOpen_le (s : Switchboard α ρ) : s.awaitOpen.work k r ≤ frameWork k r := by
  rw [awaitOpen]
  split <;> simp [Access.work, Stage.work]

/-- The price of asking for a connection. -/
theorem spends_connect (s : Switchboard α ρ) (generation : Nat) :
    Spends k r (2 * frameWork k r + k + 1) (Access.work k r) s (s.connect generation) := by
  rw [connect]
  split
  · refine ⟨k, s.stirs_abandon generation, ?_⟩
    simp only [Access.work]
    omega
  · next w h =>
    rw [Wire.connect] at h
    split at h
    · cases h
    · cases h
      have hwire : Stirs k r 0 s
          { s with wire := { s.wire with connection := some generation, isOpen := true } } :=
        stirs_of_eq rfl rfl rfl rfl rfl
      refine ⟨_, hwire.trans (stirs_announce _ generation), ?_⟩
      refine Nat.le_trans (Nat.add_le_add_left (work_awaitOpen_le _) _) ?_
      omega

/-- The price of trying one. -/
theorem spends_dial (s : Switchboard α ρ) (caller : Nat) :
    Spends k r (2 * frameWork k r + 2 * k + 1) (Access.work k r) s (s.dial caller) := by
  have hattempt : Stirs k r 0 s { s with link := s.link.attempt, wire := s.wire.attempt } :=
    stirs_of_eq rfl rfl rfl rfl rfl
  rw [dial]
  dsimp only
  split
  · exact (Spends.of_stirs hattempt (spends_connect _ _)).mono (by omega)
  · refine ⟨0, hattempt.trans (stirs_arm _ _ _), ?_⟩
    simp [Access.work, Stage.work]

/-- The price of looking for one. -/
theorem spends_seekOpen (s : Switchboard α ρ) (caller : Nat) :
    Spends k r (2 * frameWork k r + 2 * k + 1) (Access.work k r) s (s.seekOpen caller) := by
  rw [seekOpen]
  split
  · exact ⟨0, .refl s, by simp only [Access.work]; omega⟩
  · exact ⟨0, .refl s, by simp only [Access.work, Stage.work]; omega⟩
  · exact s.spends_dial caller

/-- The way on to a connection is paid by the stage. -/
theorem spends_access (s : Switchboard α ρ) (stage : Stage) :
    Spends k r (stage.work k r) (Access.work k r) s (s.access stage) := by
  have hblocked : ∀ stage : Stage,
      Spends k r (stage.work k r) (Access.work k r) s (s, .blocked stage) := fun stage =>
    ⟨0, .refl s, by simp [Access.work]⟩
  cases stage with
  | connecting g ripe =>
    cases ripe with
    | true => exact (s.spends_connect g).mono (by simp only [Stage.work]; omega)
    | false => exact hblocked _
  | opening => exact ⟨0, .refl s, by simpa [access, Stage.work] using s.work_awaitOpen_le⟩
  | settling ripe => exact hblocked _
  | waiting => exact hblocked _

/-- A request is paid by its frame. -/
theorem spends_request (s : Switchboard α ρ) (exchange : Nat) (spec : Spec α) :
    Spends k r (frameWork k r) (Delivery.work k r) s (s.request exchange spec) := by
  rw [request]
  split
  · next h => exact ⟨_, stirs_transmit h, Nat.le_refl _⟩
  · exact ⟨0, .refl s, by simp [Delivery.work]⟩

/-- So is the pause before it. -/
theorem spends_pause (s : Switchboard α ρ) (caller exchange : Nat) (spec : Spec α) :
    Spends k r (frameWork k r) (Delivery.work k r) s
      (authenticate.pause caller exchange spec s) := by
  rw [authenticate.pause]
  split
  · exact s.spends_request exchange spec
  · exact ⟨0, s.stirs_arm _ _, by simp [Delivery.work, Stage.work]⟩

/-- The handshake and the request are a frame each; a new connection has got its handshake. -/
theorem spends_authenticate (s : Switchboard α ρ) (caller exchange : Nat) (spec : Spec α)
    (readiness : Readiness) :
    Spends k r ((Access.granted readiness).work k r) (Delivery.work k r) s
      (s.authenticate caller exchange spec readiness) := by
  have hle : frameWork k r ≤ (Access.granted readiness).work k r := by
    cases readiness <;> simp only [Access.work] <;> omega
  rw [authenticate]
  split
  · exact (s.spends_request exchange spec).mono hle
  · cases readiness with
    | opened => exact s.spends_pause caller exchange spec
    | alreadyOpen =>
      dsimp only
      split
      · next h =>
        refine (Spends.of_stirs (stirs_transmit h) (spends_pause _ caller exchange spec)).mono
          ?_
        simp only [Access.work]
        omega
      · exact ⟨0, .refl s, Nat.zero_le _⟩

/-- What comes after a connection is paid by what is left. -/
theorem spends_proceed {n : Nat} {s : Switchboard α ρ} {p : Switchboard α ρ × Access}
    (h : Spends k r n (Access.work k r) s p) (caller exchange : Nat) (spec : Spec α) :
    Spends k r n (Delivery.work k r) s (proceed caller exchange spec p) := by
  obtain ⟨s', access⟩ := p
  obtain ⟨m, hstirs, hle⟩ := h
  cases access with
  | blocked stage => exact ⟨m, hstirs, hle⟩
  | refused e => exact ⟨m, hstirs, hle⟩
  | granted readiness =>
    exact (Spends.of_stirs hstirs (s'.spends_authenticate caller exchange spec readiness)).mono
      hle

/-- A delivery is paid by the stage. -/
theorem spends_deliver (s : Switchboard α ρ) (caller exchange : Nat) (spec : Spec α)
    (stage : Stage) :
    Spends k r (stage.work k r) (Delivery.work k r) s
      (s.deliver caller exchange spec stage) := by
  simp only [deliver]
  split
  · exact s.spends_request exchange spec
  · exact spends_proceed (s.spends_access _) caller exchange spec

/-- So is the stop at it. -/
theorem stirs_stopAt (s : Switchboard α ρ) (stage : Stage) :
    Stirs k r (stage.work k r) s (s.stopAt stage) := by
  cases stage with
  | connecting g ripe => exact (s.stirs_abandon g).mono (by simp only [Stage.work]; omega)
  | opening => exact (Stirs.refl s).mono (Nat.zero_le _)
  | settling ripe => exact (Stirs.refl s).mono (Nat.zero_le _)
  | waiting => exact (Stirs.refl s).mono (Nat.zero_le _)

/-- What happens to exchanges costs nothing by itself. -/
theorem stirs_correlator (s : Switchboard α ρ) (c : Correlator α) :
    Stirs k r 0 s { s with correlator := c } :=
  stirs_of_eq rfl rfl rfl rfl rfl

/-- Nor does an exchange that fails. -/
theorem stirs_failExchange (s : Switchboard α ρ) (id : Nat) :
    Stirs k r 0 s (s.failExchange id) :=
  s.stirs_correlator _

/-- A caller that is late spends no more. -/
theorem spends_stageAfter {n : Nat} {s : Switchboard α ρ} {p : Switchboard α ρ × Delivery}
    (h : Spends k r n (Delivery.work k r) s p) (caller exchange : Nat) (late : Bool) :
    Spends k r n (Stage.work k r) s (stageAfter caller exchange late p) := by
  obtain ⟨s', d⟩ := p
  obtain ⟨m, hstirs, hle⟩ := h
  cases d with
  | blocked stage =>
    cases late with
    | true =>
      have hstop := (hstirs.trans (s'.stirs_stopAt stage)).trans (stirs_disarm _ caller)
      exact ⟨_, hstop, hle⟩
    | false => exact ⟨m, hstirs, hle⟩
  | delivered => exact ⟨_, hstirs.trans (s'.stirs_disarm caller), hle⟩
  | failed e =>
    exact ⟨_, (hstirs.trans (s'.stirs_failExchange exchange)).trans (stirs_disarm _ caller),
      hle⟩

/-- Nor does one that goes on at its exchange. -/
theorem spends_stride (s : Switchboard α ρ) (c : Caller α ρ) (exchange : Nat) (spec : Spec α) :
    Spends k r (c.stage.work k r) (Stage.work k r) s (s.stride c exchange spec) := by
  by_cases hstage : c.stage = .waiting
  · rw [stride_of_waiting hstage]
    exact ⟨0, .refl s, by simp [Stage.work]⟩
  · rw [stride_of_underway hstage]
    exact spends_stageAfter (s.spends_deliver c.id exchange spec c.stage) c.id exchange c.late

/-- A new exchange is watched over. -/
theorem stirs_enrol (s : Switchboard α ρ) (spec : Spec α) :
    Stirs k r (k + 3) s (s.enrol spec) :=
  ((s.stirs_correlator _).trans (stirs_enqueue _ (.watch s.correlator.next))).mono
    (Nat.zero_add _).le

/-- An exchange costs the price of one from its beginning. -/
theorem spends_begin (s : Switchboard α ρ) (caller : Nat) (spec : Spec α) :
    Spends k r (exchangeWork k r) (Stage.work k r) s (s.begin caller spec) := by
  have hpart := Spends.of_stirs (s.stirs_enrol spec)
    (spends_stageAfter (spends_proceed ((s.enrol spec).spends_seekOpen (k := k) (r := r) caller)
      caller s.correlator.next spec) caller s.correlator.next (decide (spec.timeout = 0)))
  rw [begin_eq]
  generalize stageAfter caller s.correlator.next (decide (spec.timeout = 0)) _ = p at hpart ⊢
  obtain ⟨s₁, stage⟩ := p
  obtain ⟨m, hstirs, hle⟩ := hpart
  have harm := hstirs.trans (s₁.stirs_arm spec.timeout (.giveUp caller))
  cases stage with
  | waiting => exact ⟨m, hstirs, hle⟩
  | connecting g ripe => exact ⟨_, harm, hle⟩
  | opening => exact ⟨_, harm, hle⟩
  | settling ripe => exact ⟨_, harm, hle⟩

end Switchboard

end VenueLink

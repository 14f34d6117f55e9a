import VenueLink.Proofs.Switchboard.Pause

/-!
# No request before its time

A caller that has seen to the handshake sits out a pause before it sends its request. It sends
nothing until a timer ends that pause, however often it has its turn in the meantime, and no
other caller sends anything in its place. `Bides` says this of an exchange and an instant before
which its request is not sent.

## Main results

* `bides_of_opening`: a caller that finds the connection open at last, with a handshake, bides
  the pause.
* `Bides.move`, `Bides.play`: every move lets the request of an exchange bide its time.
-/

namespace VenueLink.Switchboard

open Exchange Correlator

variable {α ρ : Type}

/-! ### Biding -/

/-- A caller at a stage sends no request before the instant `t`: it waits for the end of its
exchange, or its pause after the handshake is over no earlier. -/
def Holds (s : Switchboard α ρ) (k t : Nat) : Stage → Prop
  | .settling false => ∀ due ∈ s.pauses k, t ≤ due
  | .settling true => t ≤ s.now
  | .waiting => True
  | _ => False

/-- The request of a registered exchange is not sent before the instant `t`: it has not been,
and its caller will not. -/
structure Bides (s : Switchboard α ρ) (ex t : Nat) : Prop where
  registered : ex < s.correlator.next
  sent : ∀ x ∈ s.wire.sent, x.exchange = some ex → t ≤ x.time
  holds : ∀ c ∈ s.callers, c.goal.exchange? = some ex → s.Holds c.id t c.stage

section Holds

variable {s s' : Switchboard α ρ} {k t : Nat}

/-- What it means for each stage that nothing is sent before `t`. -/
theorem holds_iff {stage : Stage} : s.Holds k t stage ↔ stage = .waiting ∨
    stage = .settling true ∧ t ≤ s.now ∨
      stage = .settling false ∧ ∀ due ∈ s.pauses k, t ≤ due := by
  cases stage with
  | settling ripe => cases ripe <;> simp [Holds]
  | _ => simp [Holds]

/-- It is so as long as the clock stands and the pauses of the caller stay. -/
theorem Holds.of_eq {stage : Stage} (h : s.Holds k t stage) (hpauses : s'.pauses k = s.pauses k)
    (hnow : s'.now = s.now) : s'.Holds k t stage := by
  rw [holds_iff, hpauses, hnow, ← holds_iff]
  exact h

/-- A pause is over when its timer has run out, and not before. -/
theorem Holds.ticked {c d : Caller α ρ} {instant : Nat} (h : s.Holds c.id t c.stage)
    (ht : s.Ticked instant s') (hid : d.id = c.id)
    (hstage : d.stage = c.stage ∨
      (∃ t ∈ s.timers, t.due ≤ s'.now ∧ t.alarm = .ripen c.id) ∧ d.stage = ripened c.stage) :
    s'.Holds d.id t d.stage := by
  rw [hid]
  rcases holds_iff.mp h with hc | ⟨hc, hle⟩ | ⟨hc, hall⟩
  · have hd : d.stage = .waiting :=
      hstage.elim (·.trans hc) fun h => h.2.trans (ripened_eq_waiting_iff.mpr hc)
    rw [hd]
    trivial
  · have hd : d.stage = .settling true := hstage.elim (·.trans hc) fun h => by
        rw [h.2, hc, ripened]
    rw [hd]
    exact Nat.le_trans hle ht.now_le
  · rcases hstage with hsame | ⟨⟨timer, hmem, hdue, ha⟩, hripe⟩
    · rw [hsame, hc]
      intro due hdue
      rw [ht.pauses_eq] at hdue
      exact hall due (List.mem_of_mem_filter hdue)
    · rw [hripe, hc]
      exact Nat.le_trans (hall timer.due (mem_pauses_iff.mpr ⟨timer, hmem, ha, rfl⟩)) hdue

/-- A caller that holds back sends its request only once the instant has come. -/
theorem Holds.le_of_delivered {stage : Stage} (h : s.Holds k t stage) {ex : Nat} {spec : Spec α}
    (hsent : (s.deliver k ex spec stage).2 = .delivered) : t ≤ s.now := by
  have hthrough := (s.deliver_eq_delivered_iff k ex spec stage).mp hsent
  rcases holds_iff.mp h with rfl | ⟨-, hle⟩ | ⟨rfl, -⟩
  · exact absurd hthrough id
  · exact hle
  · exact absurd hthrough.1 (by simp)

/-- A caller that holds back does so after its turn. -/
theorem holds_stride {c : Caller α ρ} (h : s.Holds c.id t c.stage) (ex : Nat) (spec : Spec α) :
    (s.stride c ex spec).1.Holds c.id t (s.stride c ex spec).2 := by
  rcases holds_iff.mp h with hstage | ⟨hstage, -⟩ | ⟨hstage, -⟩
  · rw [stride_of_waiting hstage]
    trivial
  · -- the request is sent, or cannot be
    rw [stride_of_underway (by simp [hstage]), hstage, deliver, request]
    split <;> trivial
  · rw [stride_of_underway (by simp [hstage]), hstage]
    rw [hstage] at h
    change (stageAfter c.id ex c.late (s, .blocked (.settling false))).1.Holds c.id t
      (stageAfter c.id ex c.late (s, .blocked (.settling false))).2
    cases c.late with
    | true => trivial
    | false => exact h

/-- A caller that begins its pause after the handshake holds back until that is over. -/
theorem holds_pause (hnone : s.pauses k = []) (ex : Nat) (spec : Spec α) (late : Bool) :
    (stageAfter k ex late (authenticate.pause k ex spec s)).1.Holds k (s.now + spec.settle)
      (stageAfter k ex late (authenticate.pause k ex spec s)).2 := by
  rw [authenticate.pause]
  split
  · rw [request]
    split <;> trivial
  · cases late with
    | true => trivial
    | false =>
      intro due hdue
      have hdue : due ∈ (s.arm spec.settle (.ripen k)).pauses k := hdue
      rw [pauses_arm, hnone, if_pos rfl, List.nil_append, List.mem_singleton] at hdue
      exact Nat.le_of_eq hdue.symm

end Holds

/-! ### A turn -/

section Turn

variable {s s' : Switchboard α ρ} {k ex t : Nat} {sent : List Nat}

/-- A frame that is sent in a turn for an exchange that was there before is the request of one
of `sent`, and it is sent at once. -/
theorem Spares.sent_cases (h : Spares k sent s s') (hlt : ex < s.correlator.next) {x : Sent}
    (hx : x ∈ s'.wire.sent) (hex : x.exchange = some ex) :
    x ∈ s.wire.sent ∨ x.time = s.now ∧ ex ∈ sent := by
  obtain ⟨more, heq, htime⟩ := h.frames
  obtain ⟨ids, hids, -, hall⟩ := h.requests
  rw [Switchboard.requests, heq, List.filterMap_append] at hids
  have hsame : more.filterMap Sent.exchange = ids := List.append_cancel_left hids
  rw [heq] at hx
  refine (List.mem_append.mp hx).imp_right fun hnew => ⟨htime x hnew, ?_⟩
  have hmem : ex ∈ ids := hsame ▸ List.mem_filterMap.mpr ⟨x, hnew, hex⟩
  exact (hall ex hmem).resolve_right (Nat.not_le.mpr hlt)

/-- In the turn of one caller the request of an exchange bides its time, if the caller sees to
it. -/
theorem bides_of_turn (hnd : (s.callers.map Caller.id).Nodup) (hturn : Spares k sent s s')
    (hpaces : Paces k s s') (hlt : ex < s.correlator.next)
    (hold : ∀ x ∈ s.wire.sent, x.exchange = some ex → t ≤ x.time)
    (hsent : ex ∈ sent → t ≤ s.now)
    (hothers : ∀ d ∈ s.callers, d.id ≠ k → d.goal.exchange? = some ex → s.Holds d.id t d.stage)
    (hown : ∀ d ∈ s'.callers, d.id = k → d.goal.exchange? = some ex → s'.Holds k t d.stage) :
    s'.Bides ex t where
  registered := Nat.lt_of_lt_of_le hlt hturn.next_le
  sent x hx hex := by
    rcases hturn.sent_cases hlt hx hex with hbefore | ⟨htime, hmem⟩
    · exact hold x hbefore hex
    · exact htime ▸ hsent hmem
  holds d hd hex := by
    by_cases hid : d.id = k
    · exact hid ▸ hown d hd hid hex
    · have hbefore := ((hturn.callers hnd).2 d hid).mp hd
      exact (hothers d hbefore hid hex).of_eq (hpaces.others d.id hid) hturn.now_eq

/-- A turn of any caller lets the request bide, if that of its own one does. -/
theorem Bides.of_turn (h : s.Bides ex t) (hnd : (s.callers.map Caller.id).Nodup)
    (hturn : Spares k sent s s') (hpaces : Paces k s s') (hsent : ex ∈ sent → t ≤ s.now)
    (hown : ∀ d ∈ s'.callers, d.id = k → d.goal.exchange? = some ex → s'.Holds k t d.stage) :
    s'.Bides ex t :=
  bides_of_turn hnd hturn hpaces h.registered h.sent hsent (fun d hd _ => h.holds d hd) hown

/-- A caller that is still at its exchange after its turn has come to the stage where it got
with its request. -/
theorem stride_of_mem_tend {c d : Caller α ρ} (h : s.OrderlyBut (some c.id))
    (hp : ∀ ex spec, c.goal.errand? = some (ex, spec) → s.Poised c ex spec)
    (hd : d ∈ (s.tend c).callers) (hid : d.id = c.id) {spec : Spec α}
    (he : d.goal.errand? = some (ex, spec)) (hlt : ex < s.correlator.next) :
    c.goal.errand? = some (ex, spec) ∧ s.tend c = (s.stride c ex spec).1.keep d ∧
      d.stage = (s.stride c ex spec).2 := by
  cases hg : c.goal with
  | readiness tell =>
    have hnd := (((s.aside_access c.stage).spares_nil c.id).callers h.ids_nodup).1
    rw [tend_readiness s hg] at hd
    generalize s.access c.stage = p at hd hnd
    obtain ⟨s₁, access⟩ := p
    cases access with
    | granted readiness => exact absurd hid (not_mem_finish hd)
    | refused e => exact absurd hid (not_mem_finish hd)
    | blocked stage =>
      obtain rfl := ((mem_keep hnd).mp hd).resolve_right fun hmem => hmem.2 hid
      simp [hg, Goal.errand?] at he
  | exchange ex' spec' n next =>
    have he' : c.goal.errand? = some (ex', spec') := by rw [hg, Goal.errand?]
    obtain ⟨hturn, hfits, -⟩ := stride_spec h.sound (hp ex' spec' he')
    have hnext := hturn.next_le
    have htend := tend_exchange s hg
    cases hend : (s.stride c ex' spec').1.ending? ex' (s.stride c ex' spec').2 with
    | none =>
      simp only [hend] at htend
      rw [htend] at hd ⊢
      obtain rfl := ((mem_keep (hturn.callers h.ids_nodup).1).mp hd).resolve_right
        fun hmem => hmem.2 hid
      obtain ⟨rfl, rfl⟩ : ex' = ex ∧ spec' = spec := by simpa [hg, Goal.errand?] using he
      exact ⟨rfl, rfl, rfl⟩
    | some r =>
      simp only [hend] at htend
      rw [htend] at hd
      -- the exchange that it has come to would be a new one
      obtain ⟨hwaiting, -⟩ := ending?_eq_some_iff.mp hend
      have hi := h.idle_of_turn hturn (hfits.settled hwaiting).disarmed
      have := (fits_pursue hi hd hid he).2
      omega

/-- A request that is sent in a turn has been delivered in it. -/
theorem delivered_of_mem_sentBy {c : Caller α ρ} (hmem : ex ∈ s.sentBy c) {spec : Spec α}
    (he : c.goal.errand? = some (ex, spec)) :
    (s.deliver c.id ex spec c.stage).2 = .delivered := by
  rw [sentBy, he] at hmem
  dsimp only at hmem
  cases hd : (s.deliver c.id ex spec c.stage).2 with
  | delivered => rfl
  | _ =>
    rw [hd] at hmem
    exact absurd hmem List.not_mem_nil

section Tend

variable {c : Caller α ρ} (ho : s.OrderlyBut (some c.id))
  (hp : ∀ ex spec, c.goal.errand? = some (ex, spec) → s.Poised c ex spec)
  (hs : s.Sits c.id c.stage)
include ho hp hs

/-- A caller in its turn lets the request of every exchange bide its time. -/
theorem Bides.tend (h : s.Bides ex t) (hc : c ∈ s.callers) : (s.tend c).Bides ex t := by
  refine h.of_turn ho.ids_nodup (spares_tend ho hp) (paces_tend ho hp hs) (fun hmem => ?_)
    fun d hd hid hex => ?_
  · have hex := mem_sentBy hmem
    obtain ⟨spec, he⟩ := Goal.exchange?_eq_some_iff.mp hex
    exact (h.holds c hc hex).le_of_delivered (delivered_of_mem_sentBy hmem he)
  · obtain ⟨spec, he⟩ := Goal.exchange?_eq_some_iff.mp hex
    obtain ⟨he', htend, hstage⟩ := stride_of_mem_tend ho hp hd hid he h.registered
    rw [htend, hstage]
    exact (holds_stride (h.holds c hc (exchange?_of_errand? he')) ex spec).of_eq rfl rfl

/-- A caller that has waited for the connection and finds it open bides the pause after the
handshake. -/
theorem bides_of_opening (hstage : c.stage = .opening) (hopen : s.link.isOpen)
    {handshake : Json} (hhandshake : s.link.handshake = some handshake) {spec : Spec α}
    (he : c.goal.errand? = some (ex, spec))
    (hapart : ∀ d ∈ s.callers, d.goal.exchange? = some ex → d.id = c.id) :
    (s.tend c).Bides ex (s.now + spec.settle) := by
  have hpoised := hp ex spec he
  have hunsent := (hpoised.underway (by simp [hstage])).unsent
  have hnone : s.pauses c.id = [] := hs.pauses_eq_nil (by rw [hstage]; rfl)
  have hlt := hpoised.known.registered
  refine bides_of_turn ho.ids_nodup (spares_tend ho hp) (paces_tend ho hp hs) hlt
    (fun x hx hex => absurd (List.mem_filterMap.mpr ⟨x, hx, hex⟩) hunsent) (fun hmem => ?_)
    (fun d hd hne hex => absurd (hapart d hd hex) hne) fun d hd hid hex => ?_
  · -- the request is sent in this turn only if there is no pause
    have hthrough := (s.deliver_eq_delivered_iff c.id ex spec c.stage).mp
      (delivered_of_mem_sentBy hmem he)
    rw [hstage] at hthrough
    rcases hthrough.2.2 with hno | hsettle
    · rw [hhandshake] at hno
      cases hno
    · rw [hsettle]
      exact Nat.le_refl _
  · obtain ⟨spec', he'⟩ := Goal.exchange?_eq_some_iff.mp hex
    obtain ⟨hsame, htend, hend⟩ := stride_of_mem_tend ho hp hd hid he' hlt
    obtain rfl : spec = spec' := by simpa [he] using hsame
    have hstride : s.stride c ex spec =
        stageAfter c.id ex c.late (authenticate.pause c.id ex spec s) := by
      rw [stride_of_underway (by simp [hstage]), hstage, deliver, access,
        awaitOpen_of_isOpen hopen, proceed, authenticate, hhandshake]
      simp
    rw [htend, hend, hstride]
    exact (holds_pause hnone ex spec c.late).of_eq rfl rfl

end Tend

end Turn

/-! ### Moves -/

section Bides

variable {s s' : Switchboard α ρ} {ex t : Nat}

/-- Where no caller has a turn, the request bides. -/
theorem Bides.passes (h : s.Bides ex t) {expired : List Nat} (hp : Passes expired s s') :
    s'.Bides ex t where
  registered := by
    obtain ⟨ended, hends, -⟩ := hp.ends
    rw [hends.next_eq]
    exact h.registered
  sent x hx hex := by
    obtain ⟨more, heq, hnone⟩ := hp.sent
    rw [heq] at hx
    refine (List.mem_append.mp hx).elim (fun hold => h.sent x hold hex) fun hnew => ?_
    rw [hnone x hnew] at hex
    cases hex
  holds c hc hex := by
    rw [hp.callers_eq] at hc
    exact (h.holds c hc hex).of_eq (congrFun hp.pauses_eq c.id) hp.now_eq

/-- So it does when the clock goes on. -/
theorem Bides.ticked (h : s.Bides ex t) {instant : Nat} (ht : s.Ticked instant s') :
    s'.Bides ex t where
  registered := ht.correlator_eq ▸ h.registered
  sent := by
    rw [ht.same]
    exact h.sent
  holds d hd hex := by
    obtain ⟨f, hmap, hf⟩ := ht.callers
    rw [hmap] at hd
    obtain ⟨c, hc, rfl⟩ := List.mem_map.mp hd
    obtain ⟨hcd, hstage, -⟩ := hf c
    exact (h.holds c hc (hcd.goal_eq ▸ hex)).ticked ht hcd.id_eq.symm hstage

/-- A newcomer comes to new exchanges only. -/
theorem Bides.of_newcomer (h : s.Bides ex t) (ho : s.Orderly)
    (hturn : Spares s.next [] s.enlist s') (hpaces : Paces s.next s.enlist s')
    (hev : Evolves [] [] s s') : s'.Bides ex t := by
  have henlist : s.enlist.Bides ex t := ⟨h.registered, h.sent, h.holds⟩
  refine henlist.of_turn ho.ids_nodup hturn hpaces (fun hmem => absurd hmem List.not_mem_nil)
    fun d hd hid hex => ?_
  obtain ⟨c, hc, hcd⟩ := hev.back d hd ex hex h.registered
  exact absurd (hcd.id_eq.trans hid) (Nat.ne_of_lt (ho.ids_lt c hc))

/-- And in any other event. -/
theorem Bides.occurs (h : s.Bides ex t) (ho : s.Orderly) (hr : s.Restful) {e : Event α ρ}
    (hs : Occurs s e s') : s'.Bides ex t := by
  have hnewcomer : s.pauses s.next = [] :=
    hr.pauses_eq_nil fun c hc => Nat.ne_of_lt (ho.ids_lt c hc)
  cases hs with
  | pass hp _ => exact h.passes hp
  | resume _ => exact ⟨h.registered, h.sent, h.holds⟩
  | @turn c rest hready hc =>
    have hpop : ({ s with ready := rest } : Switchboard α ρ).Bides ex t :=
      ⟨h.registered, h.sent, h.holds⟩
    exact hpop.tend (orderlyBut_pop ho hready)
      (fun ex spec he => poised_of_ready ho hready hc he)
      (hr.sits ho.ids_nodup hc) hc
  | launch label plan =>
    have hi := idle_enlist ho
    exact h.of_newcomer ho (spares_pursue hi label plan) (paces_pursue hi hnewcomer label plan)
      (s.keeps_launch label plan ho).2
  | ensureOpen label tell =>
    exact h.of_newcomer ho (s.spares_ensureOpen label tell)
      (paces_ensureOpen ho hnewcomer label tell)
      (s.keeps_ensureOpen label tell ho).2
  | listen label m timeout tell =>
    exact h.of_newcomer ho (s.spares_listen label m timeout tell)
      ⟨fun _ _ => rfl, .inl hnewcomer⟩ (s.keeps_listen label m timeout tell ho).2
  | @leave _ c hc hnone =>
    refine h.of_turn ho.ids_nodup (s.spares_stop c) (s.paces_stop c)
      (fun hmem => absurd hmem List.not_mem_nil) fun d hd hid _ => ?_
    simp [dismiss, hid] at hd

/-- Every move lets the request of an exchange bide its time. -/
theorem Bides.move (h : s.Bides ex t) (ho : s.Orderly) (hr : s.Restful) (m : Move α ρ) :
    (s.move m).Bides ex t := by
  by_cases hm : ∃ instant, m = .tick instant
  · obtain ⟨instant, rfl⟩ := hm
    exact h.ticked (s.ticked_tick instant)
  · exact h.occurs ho hr (occurs_move ho fun instant heq => hm ⟨instant, heq⟩)

/-- And in a play. -/
theorem Bides.play (h : s.Bides ex t) (ho : s.Orderly) (hr : s.Restful)
    (moves : List (Move α ρ)) : (s.play moves).Bides ex t := by
  induction moves generalizing s with
  | nil => exact h
  | cons m rest ih => exact ih (h.move ho hr m) (orderly_move ho m) (hr.move ho m)

end Bides

end VenueLink.Switchboard

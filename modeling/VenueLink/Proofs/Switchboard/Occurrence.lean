import VenueLink.Proofs.Switchboard.Offer

/-!
# What an event can be

An event either leaves the callers alone, or gives one of them a turn, or brings a new one, or
lets one go that asked for a connection only. `Occurs` lists these, for all events but the clock
going on, of which `Ticked` tells everything. While the callers are left alone exchanges may
end, and then the callers that wait for them have their turns ahead of them; `Passes` says so,
and composes.

## Main results

* `passes_handle`, `passes_drain`: signals leave the callers alone.
* `occurs_occur`: every event but the clock going on is one of these.
-/

namespace VenueLink.Switchboard

open Exchange Correlator

variable {α ρ : Type}

/-! ### Leaving the callers alone -/

/-- Between `s` and `s'` no caller has a turn, and no request is sent. Exchanges may end, those
of `expired` by running into their deadline, and the callers that wait for them are woken; the
watch over an exchange may go to sleep. -/
structure Passes (expired : List Nat) (s s' : Switchboard α ρ) : Prop where
  now_eq : s'.now = s.now
  next_eq : s'.next = s.next
  callers_eq : s'.callers = s.callers
  reports_eq : s'.reports = s.reports
  timers : ∃ more, s'.timers = s.timers ++ more ∧ ∀ t ∈ more, ∃ id, t.alarm = .watch id
  ready : ∀ c ∈ s.callers, .caller c.id ∈ s.ready → .caller c.id ∈ s'.ready
  unexpired : ∀ id, .expire id ∈ s'.ready → .expire id ∈ s.ready
  sent : ∃ more, s'.wire.sent = s.wire.sent ++ more ∧ ∀ x ∈ more, x.exchange = none
  ends : ∃ ended, s.correlator.Ends ended s'.correlator ∧ ∀ o ∈ ended, o.time = s.now ∧
    (∀ seen, o.resolution = .failed ⟨.timeout, seen⟩ → o.id ∈ expired) ∧
    ∀ c ∈ s.callers, c.goal.exchange? = some o.id → c.stage = .waiting → .caller c.id ∈ s'.ready

/-- Nothing passes. -/
theorem Passes.refl (s : Switchboard α ρ) : Passes [] s s where
  now_eq := rfl
  next_eq := rfl
  callers_eq := rfl
  reports_eq := rfl
  timers := ⟨[], by simp⟩
  ready _ _ h := h
  unexpired _ h := h
  sent := ⟨[], by simp⟩
  ends := ⟨[], .refl _, fun _ ho => absurd ho List.not_mem_nil⟩

/-- What passes keeps the exchanges in order. -/
theorem Passes.sound {expired : List Nat} {s s' : Switchboard α ρ} (h : Passes expired s s')
    (hs : s.correlator.Sound) : s'.correlator.Sound := by
  obtain ⟨ended, hends, -⟩ := h.ends
  exact hs.of_ends hends

/-- Two stretches one after the other. -/
theorem Passes.trans {xs ys : List Nat} {s₁ s₂ s₃ : Switchboard α ρ} (h₁ : Passes xs s₁ s₂)
    (h₂ : Passes ys s₂ s₃) : Passes (xs ++ ys) s₁ s₃ where
  now_eq := h₂.now_eq.trans h₁.now_eq
  next_eq := h₂.next_eq.trans h₁.next_eq
  callers_eq := h₂.callers_eq.trans h₁.callers_eq
  reports_eq := h₂.reports_eq.trans h₁.reports_eq
  timers := exists_append_trans h₁.timers h₂.timers fun hall₁ hall₂ =>
    List.forall_mem_append.mpr ⟨hall₁, hall₂⟩
  ready c hc hk := h₂.ready c (h₁.callers_eq ▸ hc) (h₁.ready c hc hk)
  unexpired id hid := h₁.unexpired id (h₂.unexpired id hid)
  sent := exists_append_trans h₁.sent h₂.sent fun hall₁ hall₂ =>
    List.forall_mem_append.mpr ⟨hall₁, hall₂⟩
  ends := by
    obtain ⟨ended₁, hends₁, hall₁⟩ := h₁.ends
    obtain ⟨ended₂, hends₂, hall₂⟩ := h₂.ends
    refine ⟨ended₁ ++ ended₂, hends₁.trans hends₂, fun o ho => ?_⟩
    rcases List.mem_append.mp ho with ho | ho
    · obtain ⟨htime, htimed, hwoken⟩ := hall₁ o ho
      exact ⟨htime, fun seen hseen => List.mem_append_left _ (htimed seen hseen),
        fun c hc he hstage => h₂.ready c (h₁.callers_eq ▸ hc) (hwoken c hc he hstage)⟩
    · obtain ⟨htime, htimed, hwoken⟩ := hall₂ o ho
      exact ⟨htime.trans h₁.now_eq,
        fun seen hseen => List.mem_append_right _ (htimed seen hseen),
          fun c hc he hstage => hwoken c (h₁.callers_eq ▸ hc) he hstage⟩

/-- More exchanges may be allowed to expire. -/
theorem Passes.mono {xs ys : List Nat} {s s' : Switchboard α ρ} (h : Passes xs s s')
    (hsub : xs ⊆ ys) : Passes ys s s' where
  __ := h
  ends := by
    obtain ⟨ended, hends, hall⟩ := h.ends
    exact ⟨ended, hends, fun o ho => ⟨(hall o ho).1,
      fun seen hseen => hsub ((hall o ho).2.1 seen hseen), (hall o ho).2.2⟩⟩

/-- What leaves everything aside, and sets no timer, passes. -/
theorem Aside.passes {s s' : Switchboard α ρ} (h : s.Aside [] s')
    (htimers : s'.timers = s.timers) : Passes [] s s' where
  now_eq := h.now_eq
  next_eq := h.next_eq
  callers_eq := h.callers_eq
  reports_eq := h.reports_eq
  timers := ⟨[], by simp [htimers]⟩
  ready _ _ hk := h.mem_ready hk
  unexpired id hid := by
    obtain ⟨more, heq, hno⟩ := h.ready
    rw [heq] at hid
    exact (List.mem_append.mp hid).resolve_right (hno id)
  sent := by
    obtain ⟨more, heq, hnone, -⟩ := h.sent
    exact ⟨more, heq, List.filterMap_eq_nil_iff.mp hnone⟩
  ends := ⟨[], h.correlator_eq ▸ .refl _, fun _ ho => absurd ho List.not_mem_nil⟩

/-- Only what is ready differs; callers that are ready stay so. -/
theorem passes_ready {s : Switchboard α ρ} {tasks : List Task}
    (hcaller : ∀ c ∈ s.callers, .caller c.id ∈ s.ready → .caller c.id ∈ tasks)
    (hexpire : ∀ id, .expire id ∈ tasks → .expire id ∈ s.ready) :
    Passes [] s { s with ready := tasks } where
  now_eq := rfl
  next_eq := rfl
  callers_eq := rfl
  reports_eq := rfl
  timers := ⟨[], by simp⟩
  ready := hcaller
  unexpired := hexpire
  sent := ⟨[], by simp⟩
  ends := ⟨[], .refl _, fun _ ho => absurd ho List.not_mem_nil⟩

/-- Exchanges end, and those who wait for them are woken. -/
theorem passes_close {s s₀ : Switchboard α ρ} {ended : List (Outcome α)} {c' : Correlator α}
    (hends : s.correlator.Ends ended c')
    (heq : ({ s with correlator := c' } : Switchboard α ρ).Aside [] s₀)
    (htimers : s₀.timers = s.timers) {expired : List Nat} (ids : List Nat)
      (hids : ∀ o ∈ ended, o.id ∈ ids)
    (hall : ∀ o ∈ ended, o.time = s.now ∧
      ∀ seen, o.resolution = .failed ⟨.timeout, seen⟩ → o.id ∈ expired) :
    Passes expired s (ids.foldl wakeWaiting s₀) := by
  have hpass := (heq.trans_nil (aside_foldl_wakeWaiting ids s₀)).passes
    ((timers_foldl_wakeWaiting ids s₀).trans htimers)
  refine { hpass with ends := ⟨ended, ?_, fun o ho => ⟨(hall o ho).1, (hall o ho).2, ?_⟩⟩ }
  · rw [(aside_foldl_wakeWaiting ids s₀).correlator_eq, heq.correlator_eq]
    exact hends
  · intro c hc he hstage
    exact mem_ready_foldl_wakeWaiting (heq.callers_eq ▸ hc) he hstage (hids o ho)

section Sound

variable {s : Switchboard α ρ} (hs : s.correlator.Sound)
include hs

/-- A message is offered to the open exchanges. -/
theorem passes_dispatch (m : Json) : Passes [] s (s.dispatch m) := by
  have hwire := aside_wire { s with correlator := (s.correlator.dispatch s.now m).1 }
    (w := { s.wire with pruned := s.wire.pruned ++ (s.correlator.dispatch s.now m).2.pruned })
      rfl
  refine passes_close (ends_dispatch hs s.now m) hwire rfl _ (fun o ho => ?_) fun o ho => ?_
  · obtain ⟨p, hp, rfl⟩ := List.mem_map.mp ho
    exact List.mem_map.mpr ⟨p, hp, rfl⟩
  · obtain ⟨⟨e, r⟩, hp, rfl⟩ := List.mem_map.mp ho
    refine ⟨rfl, fun seen hseen => ?_⟩
    obtain ⟨d, -, rfl, hdec⟩ := mem_decided hp
    obtain rfl : r = .failed ⟨.timeout, seen⟩ := hseen
    have := decide?_failed hdec
    simp at this

/-- All open exchanges fail. -/
theorem passes_failAll : Passes [] s s.failAll := by
  refine passes_close (ends_failAll hs s.now .connectionLost) (.refl _) rfl _ (fun o ho => ?_)
    fun o ho => ?_
  · obtain ⟨e, he, rfl⟩ := List.mem_map.mp ho
    exact List.mem_map_of_mem he
  · obtain ⟨e, -, rfl⟩ := List.mem_map.mp ho
    exact ⟨rfl, fun seen hseen => by simp [Entry.failure] at hseen⟩

/-- A signal is handled. -/
theorem passes_handle (x : Signal) : Passes [] s (s.handle x) := by
  simp only [handle]
  split
  · exact .refl s
  · cases x with
    | opened g =>
      exact (s.aside_greet.trans_nil ((aside_link _ _).trans_nil (aside_wakeWhere _ _))).passes
        ((timers_wakeWhere _ _).trans s.timers_greet)
    | message g payload => exact passes_dispatch hs payload
    | closed g reason =>
      have hwake := ((s.aside_link (s.link.closed g)).trans_nil
        (aside_wakeWhere _ (·.stage = .opening))).passes (timers_wakeWhere _ _)
      exact hwake.trans (passes_failAll (hwake.sound hs))

/-- The signals that have been taken in are handled. -/
theorem passes_sift : Passes [] s s.sift := by
  have hfold : ∀ (l : List Signal) {s : Switchboard α ρ}, s.correlator.Sound →
      Passes [] s (l.foldl handle s) := by
    intro l
    induction l with
    | nil => exact fun _ => .refl _
    | cons x rest ih =>
        exact fun hs => (passes_handle hs x).trans (ih ((passes_handle hs x).sound hs))
  exact ((s.aside_inbox []).passes rfl).trans (hfold s.inbox hs)

/-- And those that come in meanwhile. -/
theorem passes_drain : Passes [] s s.drain := by
  have htwice := (passes_sift hs).trans (passes_sift ((passes_sift hs).sound hs))
  exact htwice.trans (passes_ready (fun c _ hk => List.mem_filter.mpr ⟨hk, by simp⟩)
    fun id hid => (List.mem_filter.mp hid).1)

/-- An exchange that was about to expire does. -/
theorem passes_expire (id : Nat) :
    Passes [id] s (({ s with correlator := s.correlator.expire s.now id } :
      Switchboard α ρ).wakeWaiting id) := by
  by_cases hp : id ∈ s.correlator.pendingIds
  · obtain ⟨e, he, rfl⟩ := List.mem_map.mp hp
    refine passes_close (ends_expire hs s.now he) (.refl _) rfl [e.id] (fun o ho => ?_)
      fun o ho => ?_
    · obtain rfl := List.mem_singleton.mp ho
      exact List.mem_singleton.mpr rfl
    · obtain rfl := List.mem_singleton.mp ho
      exact ⟨rfl, fun _ _ => List.mem_singleton.mpr rfl⟩
  · rw [expire_of_not_pending hp]
    exact ((s.aside_wakeWhere _).passes (timers_wakeWhere _ _)).mono (List.nil_subset _)

end Sound

/-- The watch over an exchange sleeps until the deadline, and yields when that has come. -/
theorem passes_getOn (s : Switchboard α ρ) (id : Nat) : Passes [] s (s.getOn id) := by
  rw [getOn]
  cases s.correlator.pending? id with
  | none => exact .refl s
  | some e =>
    dsimp only
    split
    · exact { Passes.refl s with timers := ⟨[⟨_, .watch id⟩], rfl, by simp⟩ }
    · exact { Passes.refl s with }

/-! ### Kinds of events -/

/-- What one event does, unless it is the clock going on. -/
inductive Occurs (s : Switchboard α ρ) : Event α ρ → Switchboard α ρ → Prop
  /-- The callers are left alone. -/
  | pass {e : Event α ρ} {expired : List Nat} {s' : Switchboard α ρ} (h : Passes expired s s')
    (hexpired : ∀ id ∈ expired, .expire id ∈ s.ready) : Occurs s e s'
  /-- Nothing is ready, and those who have yielded go on. -/
  | resume (hr : s.ready = []) : Occurs s .next s.resume
  /-- A caller has a turn. -/
  | turn {c : Caller α ρ} {rest : List Task} (hr : s.ready = .caller c.id :: rest)
    (hc : c ∈ s.callers) : Occurs s .next (({ s with ready := rest } : Switchboard α ρ).tend c)
  | launch (label : String) {n : Nat} (plan : Plan α ρ n) :
    Occurs s (.act (.launch label n plan)) (s.launch label plan)
  | ensureOpen (label : String) (tell : Except OperationError Readiness → ρ) :
    Occurs s (.act (.ensureOpen label tell)) (s.ensureOpen label tell)
  | listen (label : String) (m : Matcher α) (timeout : Nat) (tell : Resolution α → ρ) :
    Occurs s (.act (.listen label m timeout tell)) (s.listen label m timeout tell)
  /-- A caller that asks for a connection only goes away. -/
  | leave {label : String} {c : Caller α ρ} (hc : c ∈ s.callers)
      (hnone : c.goal.exchange? = none) :
    Occurs s (.act (.cancel label)) ((s.stopAt c.stage).dismiss c.id)

/-- What passes is an event without a turn. -/
theorem occurs_of_passes {s s' : Switchboard α ρ} {e : Event α ρ} (h : Passes [] s s') :
    Occurs s e s' :=
  .pass h fun _ hid => absurd hid List.not_mem_nil

/-- Nothing occurs. -/
theorem Occurs.refl (s : Switchboard α ρ) (e : Event α ρ) : Occurs s e s :=
  occurs_of_passes (.refl s)

/-- What an action does. -/
theorem occurs_act {s : Switchboard α ρ} (h : s.Orderly) (step : Step α ρ) :
    Occurs s (.act step) (s.occur (.act step)) := by
  cases step with
  | wire c =>
    have hwire : s.Aside [] { s with wire := (s.wire.control c).1 } :=
      aside_wire s (sent_control s.wire c)
    exact occurs_of_passes ((hwire.trans_nil (aside_hear _ _)).passes (timers_hear _ _))
  | setHandshake handshake => exact occurs_of_passes ((s.aside_link _).passes rfl)
  | launch label n plan => exact .launch label plan
  | ensureOpen label tell => exact .ensureOpen label tell
  | listen label m timeout tell => exact .listen label m timeout tell
  | cancel label =>
    change Occurs s _ (s.cancel label)
    rw [cancel]
    cases hf : s.callers.reverse.find? fun c => c.label = label && c.goal.exchange?.isNone with
    | none => exact .refl s _
    | some c =>
      have hc : c ∈ s.callers := List.mem_reverse.mp (List.mem_of_find?_eq_some hf)
      have hnone := List.find?_some hf
      simp only [Bool.and_eq_true, Option.isNone_iff_eq_none] at hnone
      exact .leave hc hnone.2
  | transmit frame =>
    change Occurs s _ (s.act (.transmit frame)).1
    rw [act]
    cases ht : s.transmit none frame with
    | error e => exact .refl s _
    | ok s' => exact occurs_of_passes ((aside_transmit ht).passes (timers_transmit ht))
  | pump => exact occurs_of_passes (passes_drain h.sound)
  | signal x => exact occurs_of_passes (passes_handle h.sound x)
  | advance duration => exact .refl s _

/-- A task is taken up that is no caller's. -/
theorem passes_pop {s : Switchboard α ρ} {t : Task} {rest : List Task}
    (hr : s.ready = t :: rest) (ht : ∀ c ∈ s.callers, t ≠ .caller c.id) :
    Passes [] s { s with ready := rest } :=
  passes_ready (fun c hc hk => (List.mem_cons.mp (hr ▸ hk)).resolve_left (ht c hc).symm)
    fun _ hid => hr ▸ List.mem_cons_of_mem t hid

/-- What is done next. -/
theorem occurs_next {s : Switchboard α ρ} (h : s.Orderly) : Occurs s .next (s.occur .next) := by
  cases hr : s.ready with
  | nil =>
    rw [occur_next_of_nil hr]
    exact .resume hr
  | cons t rest =>
    rw [occur_next_of_ready hr]
    cases t with
    | signals =>
      have hpop := passes_pop hr fun _ _ heq => by cases heq
      exact occurs_of_passes (hpop.trans (passes_drain (hpop.sound h.sound)))
    | announce g =>
      have hpop := passes_pop hr fun _ _ heq => by cases heq
      exact occurs_of_passes (hpop.trans ((aside_hear _ [.opened g]).passes (timers_hear _ _)))
    | watch id =>
      have hpop := passes_pop hr fun _ _ heq => by cases heq
      exact occurs_of_passes (hpop.trans (passes_getOn _ id))
    | expire id =>
      have hpop := passes_pop hr fun _ _ heq => by cases heq
      refine .pass (hpop.trans (passes_expire (hpop.sound h.sound) id)) fun j hj => ?_
      rw [List.mem_singleton.mp hj, hr]
      exact List.mem_cons_self
    | caller k =>
      rw [perform]
      cases hf : ({ s with ready := rest } : Switchboard α ρ).caller? k with
      | none =>
        have hnone : ∀ c ∈ s.callers, c.id ≠ k := caller?_eq_none_iff.mp hf
        exact occurs_of_passes
          (passes_pop hr fun c hc heq => hnone c hc (Task.caller.inj heq).symm)
      | some c =>
        obtain ⟨hc, rfl⟩ : c ∈ s.callers ∧ c.id = k := mem_of_caller?_eq_some hf
        exact .turn hr hc

/-- Every event is of one of these kinds, or it is the clock going on. -/
theorem occurs_occur {s : Switchboard α ρ} (h : s.Orderly) {e : Event α ρ}
    (he : ∀ instant, e ≠ .tick instant) : Occurs s e (s.occur e) := by
  cases e with
  | act step => exact occurs_act h step
  | next => exact occurs_next h
  | tick instant => exact absurd rfl (he instant)
  | collect => exact occurs_of_passes ((s.aside_inbox []).passes rfl)
  | hush =>
    exact occurs_of_passes (passes_ready (fun c _ hk => List.mem_filter.mpr ⟨hk, by simp⟩)
      fun id hid => (List.mem_filter.mp hid).1)

end VenueLink.Switchboard

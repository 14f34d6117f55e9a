import VenueLink.Proofs.Switchboard.Handover
import VenueLink.Proofs.Switchboard.Motion
import Mathlib.Data.List.Induction

/-!
# What becomes of a caller

A caller stays with its exchange until it has a turn after the end of the exchange; then it goes
on with its plan, from what the exchange came to. How the exchange ended is settled by one
event, in which the exchange was open; whether the request had been sent by then depends on the
delivery.

## Main results

* `occur_caller`: what one event makes of a caller.
* `tellsInTime_of_ended`: a caller whose last exchange has ended reports on it in time.
* `decided_in_run`: an exchange that was answered was open until then.
* `mem_requests_iff`: the request of an open exchange has been sent exactly if nobody is
  underway for it any more and nobody gave it up at its deadline.
-/

namespace VenueLink.Switchboard

open Exchange Correlator

variable {α ρ : Type}

/-! ### Reports -/

/-- From one state to another nobody has come, gone, reported or come to another stage. -/
structure Stays (s s' : Switchboard α ρ) : Prop where
  callers_eq : s'.callers = s.callers
  reports_eq : s'.reports = s.reports

/-- In a motion nobody comes, goes or reports. -/
theorem Motion.stays {k : Nat} {errand : Option (Nat × Spec α)} {s s' : Switchboard α ρ}
    (h : Motion k errand s s') : s.Stays s' := by
  rcases h.aside_or with haside | rfl | ⟨ex, spec, -, hsend | rfl⟩
  · exact ⟨haside.callers_eq, haside.reports_eq⟩
  · exact ⟨rfl, rfl⟩
  · exact ⟨(aside_transmit hsend).callers_eq, (aside_transmit hsend).reports_eq⟩
  · exact ⟨rfl, rfl⟩

/-- Nor in several. -/
theorem Motions.stays {k : Nat} {errand : Option (Nat × Spec α)} {s s' : Switchboard α ρ}
    (h : Motions k errand s s') : s.Stays s' := by
  induction h with
  | refl => exact ⟨rfl, rfl⟩
  | tail _ hlast ih =>
    exact ⟨hlast.stays.callers_eq.trans ih.callers_eq,
      hlast.stays.reports_eq.trans ih.reports_eq⟩

/-- Nor at the beginning of an exchange. -/
theorem stays_begin (s : Switchboard α ρ) (k : Nat) (spec : Spec α) :
    s.Stays (s.begin k spec).1 := by
  obtain ⟨s₁, hmotions, heq⟩ := exists_motions_begin k spec s
  have hstays := hmotions.stays
  rcases heq with heq | heq <;> rw [heq] <;> exact ⟨hstays.callers_eq, hstays.reports_eq⟩

/-- Nor on the way of one. -/
theorem stays_stride (s : Switchboard α ρ) (c : Caller α ρ) (ex : Nat) (spec : Spec α) :
    s.Stays (s.stride c ex spec).1 :=
  (motions_stride ex spec s c).stays

/-- From one state to another a caller has reported and gone, and nobody else has reported. -/
structure Leaves (s s' : Switchboard α ρ) (k : Nat) (label : String) (r : ρ) : Prop where
  reports : ∃ time, s'.reports = s.reports ++ [⟨time, label, r⟩]
  gone : ∀ c ∈ s'.callers, c.id ≠ k

/-- A caller that is done has reported and gone. -/
theorem leaves_finish (s : Switchboard α ρ) (k : Nat) (label : String) (r : ρ) :
    s.Leaves (s.finish k label r) k label r where
  reports := ⟨s.now, rfl⟩
  gone _ hd := not_mem_finish hd

/-- Nobody has reported before that. -/
theorem Leaves.of_reports_eq {s s₁ s' : Switchboard α ρ} {k : Nat} {label : String} {r : ρ}
    (h : s₁.Leaves s' k label r) (heq : s₁.reports = s.reports) : s.Leaves s' k label r where
  reports := heq ▸ h.reports
  gone := h.gone

/-- In an event of a run a caller that was there, or was new, has reported and gone. -/
def Told (s : Switchboard α ρ) (events : List (Event α ρ)) (k : Nat) (label : String) (r : ρ) :
    Prop :=
  ∃ before e later, events = before ++ e :: later ∧
    (k = (s.after before).next ∨ ∃ c ∈ (s.after before).callers, c.id = k) ∧
    (s.after before).Leaves ((s.after before).occur e) k label r

/-- What is told in later events is told in all. -/
theorem Told.cons {s : Switchboard α ρ} {e : Event α ρ} {events : List (Event α ρ)} {k : Nat}
    {label : String} {r : ρ} (h : (s.occur e).Told events k label r) :
    s.Told (e :: events) k label r := by
  obtain ⟨before, e', later, rfl, hrest⟩ := h
  exact ⟨e :: before, e', later, rfl, hrest⟩

/-- And it stays told. -/
theorem Told.snoc {s : Switchboard α ρ} {events : List (Event α ρ)} {k : Nat} {label : String}
    {r : ρ} (h : s.Told events k label r) (e : Event α ρ) :
    s.Told (events ++ [e]) k label r := by
  obtain ⟨before, e', later, rfl, hrest⟩ := h
  exact ⟨before, e', later ++ [e], by simp, hrest⟩

/-! ### Turns -/

/-- If the caller waits for the end of its exchange, its turn is due. -/
def Called (s : Switchboard α ρ) (c : Caller α ρ) : Prop :=
  c.stage = .waiting → .caller c.id ∈ s.ready

/-- A caller does not go on exactly if it waits for an exchange that has not ended. -/
theorem ending?_eq_none_iff {s : Switchboard α ρ} {ex : Nat} {stage : Stage} :
    s.ending? ex stage = none ↔ stage = .waiting → s.correlator.outcome? ex = none := by
  cases stage <;> simp [ending?]

/-- In its turn a caller stays with its exchange, because that has not ended or because it is
still underway with the request, or else the exchange has ended and the caller goes on with its
plan. -/
theorem tend_caller {s : Switchboard α ρ} {c : Caller α ρ} (h : s.OrderlyBut (some c.id))
    {ex : Nat} {spec : Spec α} (hp : s.Poised c ex spec) {n : Nat}
    {next : Resolution α → Plan α ρ n} (hg : c.goal = .exchange ex spec n next) :
    (∃ d ∈ (s.tend c).callers, c.Continues d ∧
      ((s.tend c).correlator.outcome? ex = none ∨ d.stage ≠ .waiting)) ∨
      ∃ (s₁ : Switchboard α ρ) (o : Outcome α), s₁.Idle c.id ∧ s₁.Known ex spec ∧
        s₁.reports = s.reports ∧ s₁.correlator.outcome? ex = some o ∧
        s.tend c = s₁.pursue c.id c.label (next o.resolution) := by
  obtain ⟨hspares, hfits, hwait⟩ := stride_spec h.sound hp
  have hreports := (stays_stride s c ex spec).reports_eq
  rw [tend_exchange _ hg]
  generalize s.stride c ex spec = p at hspares hfits hwait hreports ⊢
  obtain ⟨s₁, stage⟩ := p
  have hnd := (hspares.callers h.ids_nodup).1
  cases hend : s₁.ending? ex stage with
  | none =>
    refine .inl ⟨{ c with stage := stage }, (mem_keep hnd).mpr (.inl rfl),
      ⟨rfl, rfl, rfl, hwait⟩, ?_⟩
    by_cases hstage : stage = .waiting
    · exact .inl (ending?_eq_none_iff.mp hend hstage)
    · exact .inr hstage
  | some r =>
    obtain ⟨rfl, o, ho, rfl⟩ := ending?_eq_some_iff.mp hend
    exact .inr
      ⟨s₁, o, h.idle_of_turn hspares (hfits.settled rfl).disarmed, hfits.known, hreports,
      ho, rfl⟩

/-- An event in which a caller has its turn. -/
theorem occur_of_mem_turnIn {s : Switchboard α ρ} (h : s.Orderly) {e : Event α ρ}
    {c : Caller α ρ} (hc : c ∈ s.callers) (hturn : c.id ∈ s.turnIn e) :
    ∃ rest, s.ready = .caller c.id :: rest ∧
      s.occur e = ({ s with ready := rest } : Switchboard α ρ).tend c := by
  cases e with
  | next =>
    cases hr : s.ready with
    | nil => simp [turnIn, turnNext, hr] at hturn
    | cons t rest =>
      cases t with
      | signals => simp [turnIn, turnNext, hr] at hturn
      | announce g => simp [turnIn, turnNext, hr] at hturn
      | watch id => simp [turnIn, turnNext, hr] at hturn
      | expire id => simp [turnIn, turnNext, hr] at hturn
      | caller k =>
        obtain rfl : c.id = k := by simpa [turnIn, turnNext, hr] using hturn
        have hf : ({ s with ready := rest } : Switchboard α ρ).caller? c.id = some c :=
          caller?_of_mem h.ids_nodup hc
        refine ⟨rest, rfl, ?_⟩
        rw [occur_next_of_ready hr, perform, hf]
  | _ => exact absurd hturn List.not_mem_nil

/-- One event leaves a caller with its exchange, or else the exchange has ended and the caller
goes on with its plan. A caller whose turn is due stays so, as long as its exchange has ended.
-/
theorem occur_caller {s : Switchboard α ρ} (h : s.Orderly) (e : Event α ρ) {c : Caller α ρ}
    (hc : c ∈ s.callers) {ex : Nat} {spec : Spec α} {n : Nat} {next : Resolution α → Plan α ρ n}
    (hg : c.goal = .exchange ex spec n next) :
    (∃ d ∈ (s.occur e).callers, c.Continues d ∧
      ((s.occur e).correlator.outcome? ex = none ∨ (s.Called c → (s.occur e).Called d))) ∨
      ∃ (s₁ : Switchboard α ρ) (o : Outcome α), s₁.Idle c.id ∧ s₁.Known ex spec ∧
        s₁.reports = s.reports ∧ s₁.correlator.outcome? ex = some o ∧
        s.occur e = s₁.pursue c.id c.label (next o.resolution) := by
  have he : c.goal.errand? = some (ex, spec) := by rw [hg, Goal.errand?]
  by_cases hturn : c.id ∈ s.turnIn e
  · obtain ⟨rest, hr, heq⟩ := occur_of_mem_turnIn h hc hturn
    rw [heq]
    rcases tend_caller (orderlyBut_pop h hr) (poised_of_ready h hr hc he) hg with
      ⟨d, hd, hcd, hstays⟩ | hgoes
    · exact .inl ⟨d, hd, hcd, hstays.imp_right fun hstage _ heq => absurd heq hstage⟩
    · exact .inr hgoes
  · have hev := (s.keeps_occur e h).2
    obtain ⟨d, hd, hcd⟩ := hev.forth c hc ex (exchange?_of_errand? he) hturn
    refine .inl ⟨d, hd, hcd.toContinues, .inr fun hcalled heq => ?_⟩
    exact hcd.id_eq ▸ hev.ready c.id hturn (hcalled (hcd.underway heq))

/-- A caller whose last exchange has ended is there until it has reported what the exchange came
to; until then its turn is due if it has nothing else to wait for. -/
theorem fate_of_ended {s : Switchboard α ρ} (h : s.Orderly) {c : Caller α ρ}
    (hc : c ∈ s.callers) {ex : Nat} {spec : Spec α} {n : Nat} {f : Resolution α → ρ}
    (hg : c.goal = .exchange ex spec n fun r => .report (f r)) {o : Outcome α}
    (ho : s.correlator.outcome? ex = some o) (hcalled : s.Called c)
    (events : List (Event α ρ)) :
    (∃ d ∈ (s.after events).callers, c.Continues d ∧ (s.after events).Called d) ∨
      s.Told events c.id c.label (f o.resolution) := by
  induction events generalizing s c with
  | nil => exact .inl ⟨c, hc, .refl c, hcalled⟩
  | cons e rest ih =>
    obtain ⟨h', hev⟩ := s.keeps_occur e h
    have ho' := hev.outcome?_mono ho
    rcases occur_caller h e hc hg with ⟨d, hd, hcd, hstays⟩ |
      ⟨s₁, o', hi, -, hreports, ho₁, heq⟩
    · have hcalled' := hstays.resolve_left (by simp [ho']) hcalled
      rcases ih h' hd (hcd.goal_eq ▸ hg) ho' hcalled' with ⟨b, hb, hdb, hb'⟩ | htold
      · exact .inl ⟨b, hb, hcd.trans hdb, hb'⟩
      · rw [← hcd.id_eq, ← hcd.label_eq] at htold
        exact .inr htold.cons
    · have hturn := spares_pursue hi c.label (.report (n := n) (f o'.resolution))
      have hsame : o' = o := by
        have := hturn.outcome?_mono ho₁
        rw [← heq, ho'] at this
        exact (Option.some.inj this).symm
      obtain rfl := hsame
      have hleaves := (s₁.leaves_finish c.id c.label (f o'.resolution)).of_reports_eq hreports
      exact .inr ⟨[], e, rest, rfl, .inr ⟨c, hc, rfl⟩, heq ▸ hleaves⟩

/-- In a run of events a caller has made a report and gone, or it is still there with its
exchange `ex` and will make it: its turn is ahead, or it is underway before its deadline. -/
def TellsInTime (s : Switchboard α ρ) (events : List (Event α ρ)) (c : Caller α ρ) (ex : Nat)
    (r : ρ) : Prop :=
  s.Told events c.id c.label r ∨ ∃ d ∈ (s.after events).callers, c.Continues d ∧
    (.caller d.id ∈ (s.after events).ready ∨ (s.after events).InDelivery ex ∧
      ∃ deadline, (s.after events).correlator.deadline? ex = some deadline ∧
        (s.after events).now < deadline)

/-- A caller whose last exchange has ended reports what the exchange came to, at the latest at
its deadline. -/
theorem tellsInTime_of_ended {s : Switchboard α ρ} (h : s.Orderly) {c : Caller α ρ}
    (hc : c ∈ s.callers) {ex : Nat} {spec : Spec α} {n : Nat} {f : Resolution α → ρ}
    (hg : c.goal = .exchange ex spec n fun r => .report (f r)) {o : Outcome α}
    (ho : s.correlator.outcome? ex = some o) (hcalled : s.Called c)
    (events : List (Event α ρ)) : s.TellsInTime events c ex (f o.resolution) := by
  rcases fate_of_ended h hc hg ho hcalled events with ⟨d, hd, hcd, hcalled'⟩ | htold
  · refine .inr ⟨d, hd, hcd, ?_⟩
    have he : d.goal.errand? = some (ex, spec) := by rw [← hcd.goal_eq, hg, Goal.errand?]
    by_cases hstage : d.stage = .waiting
    · exact .inl (hcalled' hstage)
    · have h' := h.after events
      obtain ⟨hu, ⟨-, hmem⟩ | ⟨t, ht, ha⟩⟩ := (h'.fits hd he).underway hstage
      · exact .inl hmem
      · exact .inr ⟨⟨d, hd, exchange?_of_errand? he, hstage⟩, t.due, hu.due t ht ha,
          h'.timers_due t ht⟩
  · exact .inl htold

/-! ### The event that settles an exchange -/

/-- A message is dispatched by the correlator at the present instant. -/
theorem correlator_dispatch (s : Switchboard α ρ) (m : Json) :
    (s.dispatch m).correlator = (s.correlator.dispatch s.now m).1 :=
  (aside_foldl_wakeWaiting _ _).correlator_eq

/-- The correlator fails all exchanges at the present instant. -/
theorem correlator_failAll (s : Switchboard α ρ) :
    s.failAll.correlator = (s.correlator.failAll s.now .connectionLost).1 :=
  (aside_foldl_wakeWaiting _ _).correlator_eq

/-- Handling a signal ends exchanges, or none. -/
theorem ends_handle {s : Switchboard α ρ} (hs : s.correlator.Sound) (signal : Signal) :
    ∃ ended, s.correlator.Ends ended (s.handle signal).correlator := by
  simp only [handle]
  split
  · exact ⟨[], .refl _⟩
  · cases signal with
    | opened g =>
      have ha := s.aside_greet.trans_nil ((aside_link s.greet (s.greet.link.opened g)).trans_nil
        (aside_wakeWhere _ (·.stage = .opening)))
      exact ⟨[], ha.correlator_eq ▸ .refl _⟩
    | message g payload =>
      exact ⟨_, s.correlator_dispatch payload ▸ ends_dispatch hs s.now payload⟩
    | closed g reason =>
      have ha := (s.aside_link (s.link.closed g)).trans_nil
        (aside_wakeWhere _ (·.stage = .opening))
      obtain ⟨ended, hends⟩ : ∃ ended, s.correlator.Ends ended
          ({ s with link := s.link.closed g } : Switchboard α
            ρ).wakeOpening.failAll.correlator := by
        rw [correlator_failAll, wakeOpening, ha.correlator_eq]
        exact ⟨_, ends_failAll hs _ .connectionLost⟩
      exact ⟨ended, hends⟩

/-- Signals end open exchanges at most. -/
theorem ends_foldl_handle {s : Switchboard α ρ} (hs : s.correlator.Sound)
    (signals : List Signal) :
    ∃ ended, s.correlator.Ends ended (signals.foldl handle s).correlator := by
  induction signals generalizing s with
  | nil => exact ⟨[], .refl _⟩
  | cons signal rest ih =>
    obtain ⟨xs, hxs⟩ := ends_handle hs signal
    obtain ⟨ys, hys⟩ := ih (hs.of_ends hxs)
    exact ⟨xs ++ ys, hxs.trans hys⟩

/-- So do those that have been taken in. -/
theorem ends_sift {s : Switchboard α ρ} (hs : s.correlator.Sound) :
    ∃ ended, s.correlator.Ends ended s.sift.correlator :=
  ends_foldl_handle (s := { s with inbox := [] }) hs s.inbox

/-- And those that come in meanwhile. -/
theorem ends_drain {s : Switchboard α ρ} (hs : s.correlator.Sound) :
    ∃ ended, s.correlator.Ends ended s.drain.correlator := by
  obtain ⟨xs, hxs⟩ := ends_sift hs
  obtain ⟨ys, hys⟩ := ends_sift (hs.of_ends hxs)
  exact ⟨xs ++ ys, hxs.trans hys⟩

/-- From one state to another open exchanges have ended, or a caller has had a turn. -/
def EndsOrTurns (s s' : Switchboard α ρ) : Prop :=
  (∃ ended, s.correlator.Ends ended s'.correlator) ∨
    ∃ k sent, ∃ s₀ : Switchboard α ρ, s₀.correlator = s.correlator ∧ Spares k sent s₀ s'

/-- Where no exchange is touched, none has ended. -/
theorem endsOrTurns_of_eq {s s' : Switchboard α ρ} (h : s'.correlator = s.correlator) :
    s.EndsOrTurns s' :=
  .inl ⟨[], h ▸ .refl _⟩

/-- An action ends exchanges, or gives a caller a turn. -/
theorem endsOrTurns_act {s : Switchboard α ρ} (h : s.Orderly) (step : Step α ρ) :
    s.EndsOrTurns (s.occur (.act step)) := by
  cases step with
  | wire c => exact endsOrTurns_of_eq (aside_hear _ _).correlator_eq
  | setHandshake handshake => exact endsOrTurns_of_eq rfl
  | launch label n plan =>
    exact .inr ⟨s.next, [], s.enlist, rfl, spares_pursue (idle_enlist h) label plan⟩
  | ensureOpen label tell =>
      exact .inr ⟨s.next, [], s.enlist, rfl, s.spares_ensureOpen label tell⟩
  | listen label m timeout tell =>
    exact .inr ⟨s.next, [], s.enlist, rfl, s.spares_listen label m timeout tell⟩
  | cancel label =>
    change s.EndsOrTurns (s.cancel label)
    rw [cancel]
    cases s.callers.reverse.find? fun c => c.label = label && c.goal.exchange?.isNone with
    | none => exact endsOrTurns_of_eq rfl
    | some c => exact .inr ⟨c.id, [], s, rfl, s.spares_stop c⟩
  | transmit frame =>
    change s.EndsOrTurns (s.act (.transmit frame)).1
    rw [act]
    cases ht : s.transmit none frame with
    | error e => exact endsOrTurns_of_eq rfl
    | ok s' => exact endsOrTurns_of_eq (aside_transmit ht).correlator_eq
  | pump => exact .inl (ends_drain h.sound)
  | signal signal => exact .inl (ends_handle h.sound signal)
  | advance duration => exact endsOrTurns_of_eq rfl

/-- So does what happens next. -/
theorem endsOrTurns_next {s : Switchboard α ρ} (h : s.Orderly) :
    s.EndsOrTurns (s.occur .next) := by
  cases hr : s.ready with
  | nil =>
    rw [occur_next_of_nil hr]
    exact endsOrTurns_of_eq rfl
  | cons t rest =>
    rw [occur_next_of_ready hr]
    cases t with
    | signals => exact .inl (ends_drain (s := { s with ready := rest }) h.sound)
    | announce g => exact endsOrTurns_of_eq (aside_hear _ [.opened g]).correlator_eq
    | watch id => exact endsOrTurns_of_eq (correlator_getOn _ id)
    | expire id =>
      rw [EndsOrTurns, perform, wakeWaiting, (aside_wakeWhere _ _).correlator_eq]
      by_cases hp : id ∈ s.correlator.pendingIds
      · obtain ⟨d, hd, rfl⟩ := List.mem_map.mp hp
        exact .inl ⟨_, ends_expire h.sound s.now hd⟩
      · rw [expire_of_not_pending hp]
        exact .inl ⟨[], .refl _⟩
    | caller k =>
      rw [perform]
      cases hf : ({ s with ready := rest } : Switchboard α ρ).caller? k with
      | none => exact endsOrTurns_of_eq rfl
      | some c =>
        obtain ⟨hc, rfl⟩ : c ∈ s.callers ∧ c.id = k := mem_of_caller?_eq_some hf
        exact .inr ⟨c.id, _, { s with ready := rest }, rfl,
          spares_tend (orderlyBut_pop h hr) fun ex spec he => poised_of_ready h hr hc he⟩

/-- In an event open exchanges end, or a caller has a turn. -/
theorem endsOrTurns_occur {s : Switchboard α ρ} (h : s.Orderly) (e : Event α ρ) :
    s.EndsOrTurns (s.occur e) := by
  cases e with
  | act step => exact endsOrTurns_act h step
  | next => exact endsOrTurns_next h
  | tick instant => exact endsOrTurns_of_eq (s.ticked_tick instant).correlator_eq
  | collect => exact endsOrTurns_of_eq rfl
  | hush => exact endsOrTurns_of_eq rfl

/-- An exchange that ends in an event was open before, unless it could not be delivered. -/
theorem pending_of_occur {s : Switchboard α ρ} (h : s.Orderly) (e : Event α ρ) {ex : Nat}
    {o : Outcome α} (hnone : s.correlator.outcome? ex = none)
    (ho : (s.occur e).correlator.outcome? ex = some o) :
    ex ∈ s.correlator.pendingIds ∨ ∃ seen, o.resolution = .failed ⟨.connectionLost, seen⟩ := by
  rcases endsOrTurns_occur h e with ⟨ended, hends⟩ | ⟨k, sent, s₀, heq, hspares⟩
  · rcases hends.outcome?_cases ho with hold | ⟨-, hmem, rfl⟩
    · rw [hnone] at hold
      cases hold
    · exact .inl (hends.mem_pending_of_mem hmem)
  · rcases hspares.outcome?_cases ho with hold | hlost
    · rw [heq, hnone] at hold
      cases hold
    · exact .inr hlost

/-- An exchange that has ended in a run of events ended in one of them. -/
theorem exists_deciding {s : Switchboard α ρ} (h : s.Orderly) {ex : Nat}
    (hnone : s.correlator.outcome? ex = none) {events : List (Event α ρ)} {o : Outcome α}
    (ho : (s.after events).correlator.outcome? ex = some o) :
    ∃ before e later, events = before ++ e :: later ∧
      (s.after before).correlator.outcome? ex = none ∧
      ((s.after before).occur e).correlator.outcome? ex = some o := by
  induction events generalizing s with
  | nil =>
    rw [after, List.foldl_nil, hnone] at ho
    cases ho
  | cons e rest ih =>
    have h' := (s.keeps_occur e h).1
    cases hfirst : (s.occur e).correlator.outcome? ex with
    | none =>
      obtain ⟨before, e', later, rfl, hbefore, hafter⟩ := ih h' hfirst ho
      exact ⟨e :: before, e', later, rfl, hbefore, hafter⟩
    | some o' =>
      have hlast := (h'.evolves rest).outcome?_mono hfirst
      obtain rfl := Option.some.inj (hlast.symm.trans ho)
      exact ⟨[], e, rest, rfl, hnone, hfirst⟩

/-- An exchange that was answered in a run of events was open until one of them. -/
theorem decided_in_run {s : Switchboard α ρ} (h : s.Orderly) {ex : Nat}
    (hnew : s.correlator.next ≤ ex) {events : List (Event α ρ)} {o : Outcome α} {m : Matched α}
    (ho : (s.after events).correlator.outcome? ex = some o) (hm : o.resolution = .matched m) :
    ∃ before e later, events = before ++ e :: later ∧
      ex ∈ (s.after before).correlator.pendingIds ∧
      ((s.after before).occur e).correlator.outcome? ex = some o := by
  have hnone : s.correlator.outcome? ex = none := by
    cases hs : s.correlator.outcome? ex with
    | none => rfl
    | some o =>
      have := h.sound.lt_of_outcome? hs
      omega
  obtain ⟨before, e, later, rfl, hbefore, hafter⟩ := exists_deciding h hnone ho
  refine ⟨before, e, later, rfl, ?_, hafter⟩
  refine (pending_of_occur (h.after before) e hbefore hafter).resolve_right ?_
  rintro ⟨seen, hlost⟩
  rw [hlost] at hm
  cases hm

/-! ### What has been sent by then -/

/-- In an event the delivery of an exchange is given up at its deadline: nobody is underway for
the exchange any more, and though it is open its request has not been sent. -/
structure GivesUp (s : Switchboard α ρ) (e : Event α ρ) (ex : Nat) : Prop where
  underway : ex < s.correlator.next → s.InDelivery ex
  stopped : ¬(s.occur e).InDelivery ex
  unsent : ex ∉ (s.occur e).requests
  pending : ex ∈ (s.occur e).correlator.pendingIds
  lapsed : (s.occur e).Lapsed ex

/-- An open exchange for which nobody is underway has been sent, or was given up. -/
theorem exists_givesUp {s : Switchboard α ρ} (h : s.Orderly) {ex : Nat}
    (hnew : s.correlator.next ≤ ex) {events : List (Event α ρ)} {c : Caller α ρ} {spec : Spec α}
    (hc : c ∈ (s.after events).callers) (he : c.goal.errand? = some (ex, spec))
    (hreq : spec.request ≠ .null) (hp : ex ∈ (s.after events).correlator.pendingIds)
    (hdel : ¬(s.after events).InDelivery ex) (hunsent : ex ∉ (s.after events).requests) :
    ∃ before e later, events = before ++ e :: later ∧ (s.after before).GivesUp e ex := by
  induction events using List.reverseRecOn generalizing c with
  | nil =>
    have := h.sound.lt_of_pending hp
    omega
  | append_singleton before e ih =>
    have hu := h.after before
    obtain ⟨hu', hev⟩ := (s.after before).keeps_occur e hu
    have hlast : s.after (before ++ [e]) = (s.after before).occur e := s.after_append before [e]
    rw [hlast] at hc hp hdel hunsent
    by_cases hfirst : ex < (s.after before).correlator.next → (s.after before).InDelivery ex
    · refine ⟨before, e, [], rfl, hfirst, hdel, hunsent, hp, ?_⟩
      have hstage : c.stage = .waiting := by
        by_contra hne
        exact hdel ⟨c, hc, exchange?_of_errand? he, hne⟩
      rcases ((hu'.fits hc he).settled hstage).sent hp with hs | hn | hl
      · exact absurd hs hunsent
      · exact absurd hn hreq
      · exact hl
    · obtain ⟨hlt, hno⟩ := Classical.not_imp.mp hfirst
      obtain ⟨b, hb, hbc⟩ := hev.back c hc ex (exchange?_of_errand? he) hlt
      have hopen : ex ∈ (s.after before).correlator.pendingIds := by
        refine hu.sound.mem_pending_iff.mpr ⟨hlt, ?_⟩
        cases ho : (s.after before).correlator.outcome? ex with
        | none => rfl
        | some o =>
          have := hev.outcome?_mono ho
          rw [hu'.sound.outcome?_of_pending hp] at this
          cases this
      obtain ⟨before', e', later, rfl, hgives⟩ :=
        ih hb (hbc.goal_eq ▸ he) hopen hno fun hmem => hunsent (hev.mem_requests hmem)
      exact ⟨before', e', later ++ [e], by simp, hgives⟩

/-- The request of an open exchange has been sent exactly if nobody is underway for it any more
and it was not given up at its deadline. -/
theorem mem_requests_iff {s : Switchboard α ρ} (h : s.Orderly) {ex : Nat}
    (hnew : s.correlator.next ≤ ex) {events : List (Event α ρ)} {c : Caller α ρ} {spec : Spec α}
    (hc : c ∈ (s.after events).callers) (he : c.goal.errand? = some (ex, spec))
    (hreq : spec.request ≠ .null) (hp : ex ∈ (s.after events).correlator.pendingIds) :
    ex ∈ (s.after events).requests ↔ ¬(s.after events).InDelivery ex ∧
      ¬∃ before e later, events = before ++ e :: later ∧ (s.after before).GivesUp e ex := by
  constructor
  · intro hmem
    refine ⟨not_inDelivery_of_mem_requests (h.after events) hmem, ?_⟩
    rintro ⟨before, e, later, rfl, hgives⟩
    have hu := ((s.after before).keeps_occur e (h.after before)).1
    have hlt := hu.sound.lt_of_pending hgives.pending
    have hsplit : s.after (before ++ e :: later) = ((s.after before).occur e).after later :=
      s.after_append before (e :: later)
    obtain ⟨more, heq, -⟩ := (hu.evolves later).requests
    have hdrop := not_mem_drop_requests hu hlt hgives.stopped later
    rw [heq, List.drop_left] at hdrop
    rw [hsplit, heq] at hmem
    exact (List.mem_append.mp hmem).elim hgives.unsent hdrop
  · rintro ⟨hdel, hno⟩
    by_contra hunsent
    exact hno (exists_givesUp h hnew hc he hreq hp hdel hunsent)

end VenueLink.Switchboard

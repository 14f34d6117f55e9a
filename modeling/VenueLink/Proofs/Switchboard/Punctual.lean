import VenueLink.Proofs.Switchboard.Owner
import VenueLink.Proofs.Switchboard.Settling
import VenueLink.Proofs.Switchboard.Watch

/-!
# Deadlines are kept

In a run the clock goes on only when nothing is left to do, and only to the next instant at
which there is something. So no open exchange gets past its deadline: one whose deadline has
come runs into it, at that very instant, and its caller goes on from there at once.

## Main results

* `timely_history`: the clock passes over no deadline in a run.
* `Punctual.after`: while it does not, nothing is late.
* `returns_by_deadline`, `times_out_at_deadline`: what comes of an exchange then.
* `deadlines_are_kept`: in a run no open exchange is past its deadline, every caller has gone on
  by the deadline of its exchange, and exchanges time out exactly then.
-/

namespace VenueLink.Switchboard

open Exchange Correlator

variable {α ρ : Type}

/-! ### Where nothing is left to do -/

/-- The instants that are ahead, at which timers run out. -/
def moments (s : Switchboard α ρ) : List Nat :=
  s.timers.map Timer.due

/-- The next instant is the first one that is ahead. -/
theorem le_of_nextInstant? {s : Switchboard α ρ} {limit instant : Nat}
    (h : s.nextInstant? limit = some instant) :
    instant ∈ s.moments ∧ ∀ m ∈ s.moments, instant ≤ m := by
  have hmem := List.min?_mem h
  have hlimit := nextInstant?_le h
  refine ⟨(List.mem_filter.mp hmem).1, fun m hm => ?_⟩
  by_cases hle : m ≤ limit
  · exact (List.min?_eq_some_iff.mp h).2 m (List.mem_filter.mpr ⟨hm, by simpa using hle⟩)
  · omega

/-- If no instant is next, all are past the limit. -/
theorem lt_of_nextInstant?_eq_none {s : Switchboard α ρ} {limit : Nat}
    (h : s.nextInstant? limit = none) : ∀ m ∈ s.moments, limit < m := by
  intro m hm
  by_contra hle
  have hnil : s.moments.filter (· ≤ limit) = [] := List.min?_eq_none_iff.mp h
  exact hle (by simpa using List.filter_eq_nil_iff.mp hnil m hm)

/-- The instants ahead are ahead. -/
theorem now_lt_of_mem_moments {s : Switchboard α ρ} (ho : s.Orderly) :
    ∀ m ∈ s.moments, s.now < m := by
  intro m hm
  obtain ⟨t, ht, rfl⟩ := List.mem_map.mp hm
  exact ho.timers_due t ht

section Quiet

variable {s : Switchboard α ρ} (ho : s.Orderly) (hw : s.Watched) (hq : s.Quiet)
include hw hq

/-- The deadline of an open exchange is ahead. -/
theorem Watched.mem_moments {e : Entry α} (he : e ∈ s.correlator.entries) :
    e.deadline ∈ s.moments := by
  obtain ⟨t, ht, -, hdue⟩ := hw.exists_timer hq he
  exact hdue ▸ List.mem_map_of_mem ht

include ho

/-- The deadline of the exchange of a caller is ahead. -/
theorem deadline_mem_moments (hm : s.Minded) {c : Caller α ρ} (hc : c ∈ s.callers) {ex : Nat}
    (hex : c.goal.exchange? = some ex) {deadline : Nat}
    (hd : s.correlator.deadline? ex = some deadline) : deadline ∈ s.moments := by
  have hasleep : .caller c.id ∉ s.ready := hq.1 ▸ List.not_mem_nil
  obtain ⟨spec, he⟩ := Goal.exchange?_eq_some_iff.mp hex
  have hfits := ho.fits hc he
  by_cases hstage : c.stage = .waiting
  · -- it waits for an exchange that has not ended, so that is open
    have hnone : s.correlator.outcome? ex = none :=
      Option.eq_none_iff_forall_ne_some.mpr
        fun o hout => hasleep (hm.called c hc ex o hex hout hstage)
    have hp := ho.sound.mem_pending_iff.mpr ⟨hfits.known.registered, hnone⟩
    obtain ⟨entry, hopen, rfl⟩ := List.mem_map.mp hp
    rw [ho.sound.deadline_eq entry hopen] at hd
    exact Option.some.inj hd ▸ hw.mem_moments hq hopen
  · obtain ⟨hu, ⟨-, hmem⟩ | ⟨t, ht, ha⟩⟩ := hfits.underway hstage
    · exact absurd hmem hasleep
    · rw [hu.due t ht ha] at hd
      exact Option.some.inj hd ▸ List.mem_map_of_mem ht

end Quiet

/-- At the start nothing is to do. -/
theorem quiet_start (cap : Nat) (manual : Bool) : (start cap manual : Switchboard α ρ).Quiet :=
  ⟨rfl, rfl⟩

/-- After a step nothing is left to do. -/
theorem quiet_step {s : Switchboard α ρ} (ho : s.Orderly) (t : Step α ρ) : (s.step t).1.Quiet :=
  quiet_settle (after_actions ho t ▸ ho.after _)

/-- Nor is it after a run. -/
theorem quiet_run {s : Switchboard α ρ} (ho : s.Orderly) (hq : s.Quiet)
    (steps : List (Step α ρ)) : (s.run steps).Quiet := by
  induction steps generalizing s with
  | nil => exact hq
  | cons t rest ih => exact ih (ho.step t) (quiet_step ho t)

/-! ### The clock in a run -/

/-- Something is done from outside, or the clock goes on, only when nothing is left to do, and
the clock passes over none of the instants ahead. Signals are not picked up but handled. -/
def Prompt (s : Switchboard α ρ) : Event α ρ → Prop
  | .act _ => s.Quiet
  | .next => True
  | .tick instant => s.Quiet ∧ ∀ m ∈ s.moments, instant ≤ m
  | .collect => False
  | .hush => False

/-- So it goes in all of the events. -/
def Timely (s : Switchboard α ρ) : List (Event α ρ) → Prop
  | [] => True
  | e :: rest => s.Prompt e ∧ (s.occur e).Timely rest

/-- Events are timely one part after the other. -/
theorem timely_append {s : Switchboard α ρ} {xs ys : List (Event α ρ)} :
    s.Timely (xs ++ ys) ↔ s.Timely xs ∧ (s.after xs).Timely ys := by
  induction xs generalizing s with
  | nil => simp [Timely, Switchboard.after]
  | cons e rest ih => rw [List.cons_append, Timely, ih, Timely, after_cons, and_assoc]

/-- What happens at an instant is timely. -/
theorem timely_happenings (n : Nat) (s : Switchboard α ρ) : s.Timely (happenings n s) := by
  induction n generalizing s with
  | zero => trivial
  | succ n ih =>
    rw [happenings]
    cases hn : s.next? with
    | none => trivial
    | some s' => exact ⟨trivial, occur_next_of_next? hn ▸ ih s'⟩

/-- Time goes on from one quiet state to the next. -/
theorem timely_passage {s : Switchboard α ρ} (ho : s.Orderly) (hq : s.Quiet) (limit n : Nat) :
    s.Timely (passage limit n s) := by
  induction n generalizing s with
  | zero => trivial
  | succ n ih =>
    rw [passage]
    cases hn : s.nextInstant? limit with
    | none => trivial
    | some instant =>
      have htick : (s.occur (.tick instant)).Orderly := ho.after [.tick instant]
      refine ⟨⟨hq, (le_of_nextInstant? hn).2⟩, timely_append.mpr ⟨timely_happenings _ _, ?_⟩⟩
      rw [after_happenings]
      exact ih (htick.happen _) (quiet_settle htick)

/-- There are not more instants to go through than there is time. -/
theorem elapse_spec {s : Switchboard α ρ} (ho : s.Orderly) (hq : s.Quiet) {limit n : Nat}
    (hlt : limit < s.now + n) :
    (elapse limit n s).Quiet ∧ (elapse limit n s).nextInstant? limit = none := by
  induction n generalizing s with
  | zero =>
    refine ⟨hq, ?_⟩
    cases hn : s.nextInstant? limit with
    | none => exact hn
    | some instant =>
      have hlater := now_lt_of_mem_moments ho instant (le_of_nextInstant? hn).1
      have := nextInstant?_le hn
      omega
  | succ n ih =>
    rw [elapse]
    cases hn : s.nextInstant? limit with
    | none => exact ⟨hq, hn⟩
    | some instant =>
      have htick : (s.occur (.tick instant)).Orderly := ho.after [.tick instant]
      have hlater := now_lt_of_mem_moments ho instant (le_of_nextInstant? hn).1
      have hnow : (s.occur (.tick instant)).settle.now = max s.now instant :=
        (now_happen htick _).trans (s.ticked_tick instant).now_eq
      refine ih (htick.happen _) (quiet_settle htick) ?_
      change limit < (s.occur (.tick instant)).settle.now + n
      omega

/-- So are the events of a step up to its end. -/
theorem timely_actions {s : Switchboard α ρ} (ho : s.Orderly) (hq : s.Quiet) (t : Step α ρ) :
    s.Timely (s.actions t) := by
  cases t with
  | advance duration =>
    have hlt : s.now + duration < s.now + (duration + 1) := by omega
    obtain ⟨hquiet, hnone⟩ := elapse_spec ho hq hlt
    rw [actions, timely_append, after_passage]
    refine ⟨timely_passage ho hq _ _, ⟨hquiet, fun m hm => ?_⟩, trivial⟩
    exact Nat.le_of_lt (lt_of_nextInstant?_eq_none hnone m hm)
  | _ => exact ⟨hq, trivial⟩

/-- And all events of a step. -/
theorem timely_trace {s : Switchboard α ρ} (ho : s.Orderly) (hq : s.Quiet) (t : Step α ρ) :
    s.Timely (s.trace t) := by
  rw [trace, timely_append, after_actions ho]
  exact ⟨timely_actions ho hq t, timely_happenings _ _⟩

/-- In a run nothing is done from outside while there is something to do, and the clock passes
over no instant at which there is. -/
theorem timely_history {s : Switchboard α ρ} (ho : s.Orderly) (hq : s.Quiet)
    (steps : List (Step α ρ)) : s.Timely (s.history steps) := by
  induction steps generalizing s with
  | nil => trivial
  | cons t rest ih =>
    rw [history, timely_append, after_trace ho]
    exact ⟨timely_trace ho hq t, ih (ho.step t) (quiet_step ho t)⟩

/-! ### Nothing is late -/

/-- Nobody is past the deadline of its exchange, and exchanges are only about to expire when
their deadline has come. -/
structure Punctual (s : Switchboard α ρ) : Prop where
  due : ∀ id, .expire id ∈ s.ready → s.Lapsed id
  awaited : ∀ c ∈ s.callers, ∀ ex deadline, c.goal.exchange? = some ex →
    s.correlator.deadline? ex = some deadline → s.now ≤ deadline

/-- At the start nobody is late. -/
theorem punctual_start (cap : Nat) (manual : Bool) :
    (start cap manual : Switchboard α ρ).Punctual where
  due _ hid := absurd hid List.not_mem_nil
  awaited _ hc := absurd hc List.not_mem_nil

/-- An open exchange is not past its deadline, since its caller is not. -/
theorem Punctual.now_le {s : Switchboard α ρ} (h : s.Punctual) (ho : s.Orderly) (hm : s.Minded)
    {e : Entry α} (he : e ∈ s.correlator.entries) : s.now ≤ e.deadline := by
  obtain ⟨c, hc, hex⟩ := hm.owned e he
  exact h.awaited c hc e.id e.deadline hex (ho.sound.deadline_eq e he)

/-- A deadline that has come has come. -/
theorem Evolves.lapsed {sent turns : List Nat} {s s' : Switchboard α ρ}
    (h : Evolves sent turns s s') {ex : Nat} (hl : s.Lapsed ex) : s'.Lapsed ex := by
  obtain ⟨deadline, hd, hle⟩ := hl
  exact ⟨deadline, h.deadline? hd, Nat.le_trans hle h.now_le⟩

/-- The deadline of an exchange was the same before, if the exchange had been registered. -/
theorem Evolves.deadline_eq {sent turns : List Nat} {s s' : Switchboard α ρ}
    (h : Evolves sent turns s s') {ex deadline : Nat} (hlt : ex < s.correlator.next)
    (hd : s'.correlator.deadline? ex = some deadline) :
    s.correlator.deadline? ex = some deadline := by
  have hold : s.correlator.deadline? ex = some s.correlator.deadlines[ex] :=
    List.getElem?_eq_getElem hlt
  rw [← hd, h.deadline? hold, hold]

/-- The clock makes nobody late, if it passes over no instant ahead. -/
theorem Punctual.tick {s : Switchboard α ρ} (h : s.Punctual) (ho : s.Orderly) (hm : s.Minded)
    (hw : s.Watched) {instant : Nat} (hq : s.Quiet) (hall : ∀ m ∈ s.moments, instant ≤ m) :
    (s.occur (.tick instant)).Punctual := by
  have ht := s.ticked_tick instant
  refine ⟨fun id hid => ht.lapsed (h.due id (ht.unexpired hid)),
    fun d hd ex deadline hex hdl => ?_⟩
  obtain ⟨c, hc, hcd, -⟩ := ht.mem_callers hd
  rw [ht.correlator_eq] at hdl
  have hmem := deadline_mem_moments ho hw hq hm hc (hcd.goal_eq ▸ hex) hdl
  rw [ht.now_eq]
  exact Nat.max_le.mpr
    ⟨Nat.le_of_lt (now_lt_of_mem_moments ho deadline hmem), hall deadline hmem⟩

/-- Nor does any other event. -/
theorem Punctual.occurs {s s' : Switchboard α ρ} {e : Event α ρ} (h : s.Punctual)
    (ho : s.Orderly) (hs : Occurs s e s') {sent turns : List Nat}
    (hev : Evolves sent turns s s') : s'.Punctual := by
  refine ⟨fun id hid => hev.lapsed ?_, fun d hd ex deadline hex hdl => ?_⟩
  · rcases hs.expiring ho hid with hold | ⟨-, hyielded⟩
    · exact h.due id hold
    · exact ho.yielded_lapsed id hyielded
  · rw [hs.now_eq ho]
    by_cases hlt : ex < s.correlator.next
    · obtain ⟨c, hc, hcd⟩ := hev.back d hd ex hex hlt
      exact h.awaited c hc ex deadline (hcd.goal_eq ▸ hex) (hev.deadline_eq hlt hdl)
    · obtain ⟨spec, he⟩ := Goal.exchange?_eq_some_iff.mp hex
      rw [hs.deadline ho hd he (Nat.not_lt.mp hlt)] at hdl
      have := Option.some.inj hdl
      omega

/-- So nobody is late after a prompt event. -/
theorem Punctual.occur {s : Switchboard α ρ} (h : s.Punctual) (ho : s.Orderly) (hm : s.Minded)
    (hw : s.Watched) {e : Event α ρ} (hp : s.Prompt e) : (s.occur e).Punctual := by
  have hev := (s.keeps_occur e ho).2
  cases e with
  | tick instant => exact h.tick ho hm hw hp.1 hp.2
  | _ => exact h.occurs ho (occurs_occur ho fun _ heq => by cases heq) hev

/-- While the clock passes over no instant at which there is something to do, nothing is late.
-/
theorem Punctual.after {s : Switchboard α ρ} (h : s.Punctual) (ho : s.Orderly) (hm : s.Minded)
    (hw : s.Watched) {events : List (Event α ρ)} (ht : s.Timely events) :
    (s.after events).Punctual := by
  induction events generalizing s with
  | nil => exact h
  | cons e rest ih =>
      exact ih (h.occur ho hm hw ht.1) (ho.after [e]) (hm.occur ho e) (hw.occur ho e) ht.2

/-! ### Callers go on -/

/-- In an event a caller has its turn after the end of its exchange, and goes on with its plan.
-/
def Returns (s : Switchboard α ρ) (e : Event α ρ) (c : Caller α ρ) (ex : Nat) {n : Nat}
    (next : Resolution α → Plan α ρ n) : Prop :=
  ∃ (s₁ : Switchboard α ρ) (o : Outcome α), (s.occur e).correlator.outcome? ex = some o ∧
    s.occur e = s₁.pursue c.id c.label (next o.resolution)

/-- A caller stays with its exchange until it goes on with its plan. -/
theorem stays_or_returns {s : Switchboard α ρ} (ho : s.Orderly) {c : Caller α ρ}
    (hc : c ∈ s.callers) {ex : Nat} {spec : Spec α} {n : Nat} {next : Resolution α → Plan α ρ n}
    (hg : c.goal = .exchange ex spec n next) (events : List (Event α ρ)) :
    (∃ d ∈ (s.after events).callers, c.Continues d) ∨
      ∃ before e later, events = before ++ e :: later ∧
        ∃ d ∈ (s.after before).callers,
          c.Continues d ∧ (s.after before).Returns e d ex next := by
  induction events generalizing s c with
  | nil => exact .inl ⟨c, hc, .refl c⟩
  | cons e rest ih =>
    rcases occur_caller ho e hc hg with ⟨d, hd, hcd, -⟩ | ⟨s₁, o, hi, -, -, hout, heq⟩
    · rcases ih (ho.after [e]) hd (hcd.goal_eq ▸ hg) with
        ⟨b, hb, hdb⟩ | ⟨before, e', later, rfl, b, hb, hdb, hreturns⟩
      · exact .inl ⟨b, hb, hcd.trans hdb⟩
      · exact .inr ⟨e :: before, e', later, rfl, b, hb, hcd.trans hdb, hreturns⟩
    · have hlast := (spares_pursue hi c.label (next o.resolution)).outcome?_mono hout
      rw [← heq] at hlast
      exact .inr ⟨[], e, rest, rfl, c, hc, .refl c, s₁, o, hlast, heq⟩

/-! ### Events that pass over no instant -/

section Timely

variable {s : Switchboard α ρ} (ho : s.Orderly) (hm : s.Minded) (hw : s.Watched)
  (hp : s.Punctual) {events : List (Event α ρ)} (ht : s.Timely events)
include ho hm hw hp ht

/-- At any time nothing is late. -/
theorem punctual_of_timely {before later : List (Event α ρ)} (heq : events = before ++ later) :
    (s.after before).Punctual :=
  hp.after ho hm hw (timely_append.mp (heq ▸ ht)).1

/-- A caller that has come to an exchange goes on with its plan at the deadline at the latest,
if all that there is to do by then has been done. -/
theorem returns_by_deadline (hq : (s.after events).Quiet) {before later : List (Event α ρ)}
    (heq : events = before ++ later) {c : Caller α ρ} (hc : c ∈ (s.after before).callers)
    {ex : Nat} {spec : Spec α} {n : Nat} {next : Resolution α → Plan α ρ n}
    (hg : c.goal = .exchange ex spec n next) {deadline : Nat}
    (hd : (s.after events).correlator.deadline? ex = some deadline)
    (hle : deadline ≤ (s.after events).now) :
    ∃ xs e ys, later = xs ++ e :: ys ∧
      let u := s.after (before ++ xs)
      u.now ≤ deadline ∧ ∃ d ∈ u.callers, c.Continues d ∧ u.Returns e d ex next := by
  have hexchange : ∀ {d : Caller α ρ}, c.Continues d →
      d.goal.exchange? = some ex := fun hcd => by
    rw [← hcd.goal_eq, hg, Goal.exchange?]
  rcases stays_or_returns (ho.after before) hc hg later with
    ⟨d, hmem, hcd⟩ | ⟨xs, e, ys, rfl, d, hmem, hcd, hreturns⟩
  · -- its deadline would still be ahead
    rw [← after_append, ← heq] at hmem
    have hahead := now_lt_of_mem_moments (ho.after events) deadline
      (deadline_mem_moments (ho.after events) (hw.after ho events) hq (hm.after ho events) hmem
        (hexchange hcd) hd)
    omega
  · rw [← after_append] at hmem hreturns
    have hsplit : events = (before ++ xs) ++ e :: ys := by rw [heq, List.append_assoc]
    have hpu := punctual_of_timely ho hm hw hp ht hsplit
    have hu := ho.after (before ++ xs)
    obtain ⟨spec', he⟩ := Goal.exchange?_eq_some_iff.mp (hexchange hcd)
    rw [hsplit, after_append] at hd
    have hbefore := (hu.evolves (e :: ys)).deadline_eq (hu.fits hmem he).known.registered hd
    exact ⟨xs, e, ys, rfl, hpu.awaited d hmem ex deadline (hexchange hcd) hbefore, d, hmem, hcd,
      hreturns⟩

/-- An exchange that times out does so at its deadline, and has been open until then, with its
caller there. -/
theorem times_out_at_deadline {ex : Nat} (hnew : s.correlator.next ≤ ex) {o : Outcome α}
    (hout : (s.after events).correlator.outcome? ex = some o) {seen : List Json}
    (hseen : o.resolution = .failed ⟨.timeout, seen⟩) :
    ∃ before e later, events = before ++ e :: later ∧
      let u := s.after before
      ex ∈ u.correlator.pendingIds ∧ (u.occur e).correlator.outcome? ex = some o ∧
      o.time = u.now ∧ ∃ c ∈ u.callers, ∃ spec, c.goal.errand? = some (ex, spec) ∧
      ∃ xs e' ys, before = xs ++ e' :: ys ∧ (s.after xs).Registers e' ex spec.timeout ∧
        u.now = (s.after xs).now + spec.timeout := by
  have hfirst : s.correlator.outcome? ex = none := by
    cases ho' : s.correlator.outcome? ex with
    | none => rfl
    | some o => exact absurd (ho.sound.lt_of_outcome? ho') (Nat.not_lt.mpr hnew)
  obtain ⟨before, e, later, heq, hnone, hafter⟩ := exists_deciding ho hfirst hout
  have hu := ho.after before
  have hpu := punctual_of_timely ho hm hw hp ht heq
  have hne : ∀ instant, e ≠ .tick instant := by
    rintro instant rfl
    rw [((s.after before).ticked_tick instant).correlator_eq, hnone] at hafter
    cases hafter
  obtain ⟨hopen, hexpire, htime⟩ := (occurs_occur hu hne).timed_out hu hnone hafter hseen
  obtain ⟨d, hd, rfl⟩ := List.mem_map.mp hopen
  obtain ⟨c, hc, hex⟩ := (hm.after ho before).owned d hd
  obtain ⟨spec, he⟩ := Goal.exchange?_eq_some_iff.mp hex
  obtain ⟨xs, e', ys, rfl, hreg⟩ := exists_registers ho hc he hnew
  refine ⟨_, e, later, heq, hopen, hafter, htime, c, hc, spec, he, xs, e', ys, rfl, hreg, ?_⟩
  -- the deadline has come, and it has not passed
  have hdeadline : (s.after (xs ++ e' :: ys)).correlator.deadline? d.id =
      some ((s.after xs).now + spec.timeout) := by
    rw [after_append, after_cons]
    exact (((ho.after xs).after [e']).evolves ys).deadline? hreg.deadline
  obtain ⟨deadline, hd', hle⟩ := hpu.due d.id hexpire
  have hge := hpu.awaited c hc d.id deadline hex hd'
  rw [hdeadline] at hd'
  have := Option.some.inj hd'
  omega

end Timely

/-- **Deadlines are kept.** After every run the deadlines of all open exchanges are ahead. Every
caller that has come to an exchange, and whose deadline is not ahead, has gone on with its plan
by then, at its deadline at the latest. An exchange times out exactly at its deadline, which is
the instant of its registration and the time that it may take; until then it was open, and its
caller there. -/
theorem deadlines_are_kept (cap : Nat) (manual : Bool) (steps : List (Step α ρ)) :
    let init : Switchboard α ρ := start cap manual
    let s := init.run steps
    s = init.after (init.history steps) ∧
    (∀ e ∈ s.correlator.entries, s.now < e.deadline) ∧
    (∀ before later, init.history steps = before ++ later →
      ∀ c ∈ (init.after before).callers, ∀ ex spec n next, c.goal = .exchange ex spec n next →
      ∀ deadline, s.correlator.deadline? ex = some deadline → deadline ≤ s.now →
      ∃ xs e ys, later = xs ++ e :: ys ∧
        let u := init.after (before ++ xs)
        u.now ≤ deadline ∧ ∃ d ∈ u.callers, c.Continues d ∧ u.Returns e d ex next) ∧
    ∀ ex o seen, s.correlator.outcome? ex = some o → o.resolution = .failed ⟨.timeout, seen⟩ →
      ∃ before e later, init.history steps = before ++ e :: later ∧
        let u := init.after before
        ex ∈ u.correlator.pendingIds ∧ (u.occur e).correlator.outcome? ex = some o ∧
        o.time = u.now ∧ ∃ c ∈ u.callers, ∃ spec, c.goal.errand? = some (ex, spec) ∧
        ∃ xs e' ys, before = xs ++ e' :: ys ∧ (init.after xs).Registers e' ex spec.timeout ∧
          u.now = (init.after xs).now + spec.timeout := by
  intro init s
  have ho : init.Orderly := orderly_start cap manual
  have hm : init.Minded := minded_start cap manual
  have hw : init.Watched := watched_start cap manual
  have hp : init.Punctual := punctual_start cap manual
  have hquiet : init.Quiet := quiet_start cap manual
  have hs : s = init.after (init.history steps) := (after_history ho steps).symm
  have ht := timely_history ho hquiet steps
  have hqs : s.Quiet := quiet_run ho hquiet steps
  rw [hs] at hqs ⊢
  refine ⟨rfl, fun e he => ?_,
    fun before later heq c hc ex spec n next hg deadline hd hle => ?_,
      fun ex o seen hout hseen => ?_⟩
  · exact now_lt_of_mem_moments (ho.after _) _ ((hw.after ho _).mem_moments hqs he)
  · exact returns_by_deadline ho hm hw hp ht hqs heq hc hg hd hle
  · exact times_out_at_deadline ho hm hw hp ht (Nat.zero_le ex) hout hseen

/-- An exchange that may take a tenth of a second. -/
def hurried : Spec Unit where
  request := .string "question"
  matcher := { accepts := fun _ => true, answer := fun _ => () }
  timeout := 100
  settle := 0

/-- The attempt to connect hangs for longer than the exchange may take. -/
def stalled : List (Step Unit Unit) :=
  [.wire (.stall 500), .launch "caller" 1 (.exchange hurried fun _ => .report ()), .advance 100]

/-- The exchange times out at its deadline, with its caller in the middle of connecting until
then. -/
theorem stalled_exchange_times_out :
    let init : Switchboard Unit Unit := start 5 false
    let s := init.run stalled
    (s.now = 100 ∧ s.callers.length = 0 ∧ s.reports.map Report.time = [100] ∧
      s.correlator.outcome? 0 = some ⟨0, 100, .failed ⟨.timeout, []⟩⟩) ∧
    ∃ before e later, init.history stalled = before ++ e :: later ∧
      let u := init.after before
      0 ∈ u.correlator.pendingIds ∧
      (u.occur e).correlator.outcome? 0 = some ⟨0, 100, .failed ⟨.timeout, []⟩⟩ ∧
      100 = u.now ∧ ∃ c ∈ u.callers, ∃ spec, c.goal.errand? = some (0, spec) ∧
      ∃ xs e' ys, before = xs ++ e' :: ys ∧ (init.after xs).Registers e' 0 spec.timeout ∧
        u.now = (init.after xs).now + spec.timeout := by
  have hout : ((start 5 false : Switchboard Unit Unit).run stalled).correlator.outcome? 0 =
      some ⟨0, 100, .failed ⟨.timeout, []⟩⟩ := by decide +kernel
  exact ⟨⟨by decide +kernel, by decide +kernel, by decide +kernel, hout⟩,
    (deadlines_are_kept 5 false stalled).2.2.2 0 _ [] hout rfl⟩

end VenueLink.Switchboard

import VenueLink.Proofs.Broker.EarlyExit
import VenueLink.Proofs.Switchboard.Moments
import VenueLink.Proofs.Switchboard.Trail

/-!
# The lines of a call in the ledger

A call that goes to the venue runs its plan from the deed on with which its caller comes. So at
the end of a course the ledger has, as the lines of that caller, the exchanges that its plan has
gone over, and the caller is at the last of them or has answered; and whatever is open at a
moment of the course is an exchange of the ledger, and recognises its answer as the ledger says.

Nothing is left to do at the end of a course. So if the exchange that a caller is at has ended
by then, its request is still on its way, and the deadline is ahead.

## Main results

* `trod_of_brought`: where the caller of a call is at the end of a course, and what it has run.
* `once_of_answers`: what a caller answers that asks only once.
* `matcher_of_line`: an exchange that is open at a moment is that of its line.
* `met_or_failed`: how an exchange ends that sees a refusal in nothing.
* `Trod.answers_or_enRoute`: whoever asks only once has answered what its exchange came to, or
  is about to.
-/

namespace VenueLink

open Exchange Exchange.Plan Switchboard

variable {α ρ : Type}

namespace Switchboard

/-! ### Where a caller is when nothing is left to do -/

/-- The request of an exchange is still on its way, and the deadline is ahead. -/
def EnRoute (s : Switchboard α ρ) (ex : Nat) : Prop :=
  s.InDelivery ex ∧ ∃ deadline, s.correlator.deadline? ex = some deadline ∧ s.now < deadline

section Quiet

variable {s : Switchboard α ρ} (ho : s.Orderly) (hm : s.Minded) (hq : s.Quiet)
include ho hm hq

/-- A caller that is there though its exchange has ended is on the way with its request. -/
theorem enRoute_of_ended {c : Caller α ρ} (hc : c ∈ s.callers) {ex : Nat} {spec : Spec α}
    (he : c.goal.errand? = some (ex, spec)) {o : Outcome α}
    (hout : s.correlator.outcome? ex = some o) : s.EnRoute ex := by
  have hex := exchange?_of_errand? he
  have hasleep : .caller c.id ∉ s.ready := hq.1 ▸ List.not_mem_nil
  have hstage : c.stage ≠ .waiting :=
    fun hwaiting => hasleep (hm.called c hc ex o hex hout hwaiting)
  obtain ⟨hu, ⟨-, hmem⟩ | ⟨t, ht, ha⟩⟩ := (ho.fits hc he).underway hstage
  · exact absurd hmem hasleep
  · exact ⟨⟨c, hc, hex, hstage⟩, t.due, hu.due t ht ha, ho.timers_due t ht⟩

/-- Nobody is at an exchange whose deadline has come. -/
theorem exchange?_ne_of_lapsed (hw : s.Watched) {ex : Nat} (h : s.Lapsed ex) {c : Caller α ρ}
    (hc : c ∈ s.callers) : c.goal.exchange? ≠ some ex := by
  intro hex
  obtain ⟨deadline, hd, hle⟩ := h
  have hahead : deadline ∈ s.moments := deadline_mem_moments ho hw hq hm hc hex hd
  exact Nat.not_lt.mpr hle (now_lt_of_mem_moments ho deadline hahead)

end Quiet

/-- An exchange whose request is on its way has not run into its deadline. -/
theorem EnRoute.not_lapsed {s : Switchboard α ρ} {ex : Nat} (h : s.EnRoute ex) :
    ¬s.Lapsed ex := by
  rintro ⟨deadline, hd, hle⟩
  obtain ⟨-, deadline', hd', hlt⟩ := h
  obtain rfl := Option.some.inj (hd.symm.trans hd')
  exact Nat.not_lt.mpr hle hlt

/-! ### Callers that ask only once -/

section Once

variable {s : Switchboard α ρ} {told : ρ → Prop} {book : List (Nat × Spec α)} {k n : Nat}
  {spec : Spec α} {f : Resolution α → ρ}

/-- Whoever asks only once has one line, and is there with its exchange or has answered what
that came to. -/
theorem Trod.once
    (h : Trod told s book k (.exchange spec fun r => (.report (f r) : Plan α ρ n))) :
    ∃ ex, linesOf k 0 book = [(ex, spec)] ∧
      ((∃ c ∈ s.callers, c.id = k ∧ c.goal.errand? = some (ex, spec)) ∨
        ∃ r, told (f r) ∧ s.HasRun ⟨ex, spec, r⟩) := by
  obtain ⟨legs, hrun, ⟨c, hc, hid, ex, spec', m, next, hg, halong, hlines⟩ |
    ⟨-, r, m, htold, halong, hlines⟩⟩ := h
  · cases halong with
    | here => exact ⟨ex, hlines, .inl ⟨c, hc, hid, by rw [hg, Goal.errand?]⟩⟩
    | past hrest => cases hrest
  · cases halong with
    | past hrest =>
      cases hrest with
      | here => exact ⟨_, hlines, .inr ⟨_, htold, hrun _ List.mem_cons_self⟩⟩

/-- Whoever asks nothing has answered. -/
theorem Trod.told_of_report {r : ρ} (h : Trod told s book k (.report r : Plan α ρ n)) :
    told r := by
  obtain ⟨legs, -, ⟨c, -, -, ex, spec, m, next, -, halong, -⟩ |
    ⟨-, r', m, htold, halong, -⟩⟩ := h
  · cases halong
  · cases halong
    exact htold

/-- Whoever asks only once has answered what its exchange came to once that has ended, unless
its request is still on its way. -/
theorem Trod.answers_or_enRoute (ho : s.Orderly) (hm : s.Minded) (hq : s.Quiet)
    (h : Trod told s book k (.exchange spec fun r => (.report (f r) : Plan α ρ n))) {ex : Nat}
    (hline : (ex, spec) ∈ linesOf k 0 book) {r : Resolution α}
    (hr : s.resolution? ex = some r) : told (f r) ∨ s.EnRoute ex := by
  obtain ⟨ex', hlines, hhere | ⟨r', htold, hrun⟩⟩ := h.once
  · obtain ⟨c, hc, -, he⟩ := hhere
    rw [hlines] at hline
    obtain ⟨rfl, -⟩ := Prod.mk.inj (List.mem_singleton.mp hline)
    obtain ⟨o, hout, -⟩ := resolution?_eq_some_iff.mp hr
    exact .inr (enRoute_of_ended ho hm hq hc he hout)
  · rw [hlines] at hline
    obtain ⟨rfl, -⟩ := Prod.mk.inj (List.mem_singleton.mp hline)
    obtain rfl := Option.some.inj (hrun.ended.symm.trans hr)
    exact .inl htold

end Once

end Switchboard

namespace Broker

/-! ### The events of a course -/

/-- The signals are handled in a course only if that is what is ready first. -/
theorem plain_history (b : Broker ρ) (deeds : List (Deed ρ)) :
    ∀ e ∈ b.history deeds, e.Plain := by
  induction deeds generalizing b with
  | nil => exact fun _ he => absurd he List.not_mem_nil
  | cons d rest ih =>
    refine List.forall_mem_append.mpr ⟨?_, ih _⟩
    have htrace : ∀ (t : Step Answer ρ), ((∀ duration, t ≠ .advance duration) → t.Plain) →
        ∀ s : Switchboard Answer ρ, ∀ e ∈ s.trace t, e.Plain := fun t ht s =>
      forall_trace (p := Event.Plain) trivial (fun _ => trivial) ht s
    cases d with
    | call label c tell =>
      exact List.forall_mem_cons.mpr ⟨trivial, htrace (.launch label _ _) (fun _ => trivial) _⟩
    | reply label r => exact htrace (.launch label 0 (.report r)) (fun _ => trivial) _
    | wire c => exact htrace (.wire c) (fun _ => trivial) _
    | advance duration => exact htrace (.advance duration) (fun h => absurd rfl (h duration)) _
    | _ => exact fun _ he => absurd he List.not_mem_nil

/-- In a course nothing is done from outside while there is something to do, and the clock
passes over no instant at which there is. -/
theorem timely_history_course {b : Broker ρ} (ho : b.board.Orderly) (hq : b.board.Quiet)
    (deeds : List (Deed ρ)) : b.board.Timely (b.history deeds) := by
  induction deeds generalizing b with
  | nil => trivial
  | cons d rest ih =>
    rw [history, timely_append, after_trace_follow ho]
    refine ⟨?_, ih (orderly_follow ho d) (quiet_follow ho hq d)⟩
    cases d with
    | call label c tell =>
      have hset := b.prepare_board c
      have hquiet : (b.prepare c).1.board.Quiet := hset ▸ hq
      have hlaunch := timely_trace ((b.reaches_prepare c).1.orderly ho) hquiet
        (.launch label _ ((b.prepare c).2.2.map tell))
      exact ⟨hq, hset ▸ hlaunch⟩
    | reply label r => exact timely_trace ho hq _
    | wire c => exact timely_trace ho hq _
    | advance duration => exact timely_trace ho hq _
    | _ => trivial

/-- What happens in a course when something is ready is that. -/
theorem history_eq_of_ready {b : Broker ρ} (ho : b.board.Orderly) (hq : b.board.Quiet)
    {deeds : List (Deed ρ)} {i : Nat} (hlt : i < (b.history deeds).length)
    (hbusy : (b.board.after ((b.history deeds).take i)).ready ≠ []) :
    b.history deeds = (b.history deeds).take i ++ .next :: (b.history deeds).drop (i + 1) := by
  have hsplit := (List.take_append_drop i (b.history deeds)).symm
  rw [List.drop_eq_getElem_cons hlt] at hsplit
  have ht := timely_history_course ho hq deeds
  rw [hsplit, timely_append] at ht
  rw [eq_next_of_ready ht.2.1 hbusy] at hsplit
  exact hsplit

section Course

variable {config : VenueConfig} {session : SessionScript} {responders : List Responder}
  {deeds : List (Deed ρ)}

/-- In a course every open exchange has its caller. -/
theorem minded_course : ((start config session responders).course deeds).board.Minded := by
  have hord := orderly_board_start (ρ := ρ) config session responders
  rw [← after_history_course hord]
  exact (minded_board_start config session responders).after hord _

/-- Everything is in order. -/
theorem orderly_course : ((start config session responders).course deeds).board.Orderly := by
  have hord := orderly_board_start (ρ := ρ) config session responders
  exact after_history_course hord deeds ▸ hord.after _

/-- At the start there is no exchange to watch over. -/
theorem watched_board_start : (start config session responders : Broker ρ).board.Watched :=
  fun _ he => absurd he List.not_mem_nil

/-- In a course every open exchange is under a watch. -/
theorem watched_course : ((start config session responders).course deeds).board.Watched := by
  have hord := orderly_board_start (ρ := ρ) config session responders
  exact after_history_course hord deeds ▸ watched_board_start.after hord _

/-- At the start nobody is late. -/
theorem punctual_board_start : (start config session responders : Broker ρ).board.Punctual :=
  ⟨fun _ hid => absurd hid List.not_mem_nil, fun _ hc => absurd hc List.not_mem_nil⟩

/-! ### The lines of a call -/

/-- At any time the caller of a call is still to come, or goes along the plan that was prepared
for it. -/
theorem trod_at_of_brought {k : Nat} {label : String} {c : Call} {tell : CallResult → ρ}
    (h : (start config session responders).Brought deeds k (.call label c tell)) :
    ∃ b : Broker ρ, b.config = config ∧ ∀ before later,
      (start config session responders).history deeds = before ++ later →
      ((start config session responders).board.after before).next ≤ k ∨
        Trod ((start config session responders).board.Answers before k)
          ((start config session responders).board.after before)
          ((start config session responders).board.enrolledOver before) k
            ((b.prepare c).2.2.map tell) := by
  have hord := orderly_board_start (ρ := ρ) config session responders
  obtain ⟨first, rest, b, hlaunch, rfl, hconfig⟩ := h.launch hord
  refine ⟨b, hconfig, fun before later heq => ?_⟩
  rcases List.append_eq_append_iff.mp (hlaunch.symm.trans heq) with ⟨more, rfl, hmore⟩ |
    ⟨more, rfl, -⟩
  · cases more with
    | nil =>
      rw [List.append_nil]
      exact .inl (Nat.le_refl _)
    | cons e more =>
      obtain ⟨rfl, -⟩ := List.cons.inj hmore
      exact .inr (trod_of_launched hord (booked_start config session responders _)
        (heedful_course config session responders heq))
  · rw [after_append]
    exact .inl (next_le_after (hord.after before) more)

/-- At the end of the course the caller of a call has come. -/
theorem lt_of_brought {k : Nat} {d : Deed ρ} (hd : d.brings)
    (h : (start config session responders).Brought deeds k d) :
    k < ((start config session responders).course deeds).board.next := by
  have hord := orderly_board_start (ρ := ρ) config session responders
  have hvisit := (brought_iff hord rfl hd).mp h
  rw [next_course hord]
  exact Nat.lt_of_lt_of_le (List.getElem?_eq_some_iff.mp hvisit).1 (Nat.le_add_left _ _)

/-- At the end of the course the caller of a call has gone along its plan. -/
theorem trod_of_brought {k : Nat} {label : String} {c : Call} {tell : CallResult → ρ}
    (h : (start config session responders).Brought deeds k (.call label c tell)) :
    ∃ b : Broker ρ, b.config = config ∧ Trod
      ((start config session responders).board.Answers
        ((start config session responders).history deeds) k)
      ((start config session responders).course deeds).board
      ((start config session responders).ledger deeds) k ((b.prepare c).2.2.map tell) := by
  obtain ⟨b, hconfig, hat⟩ := trod_at_of_brought h
  have hlast := hat _ [] (List.append_nil _).symm
  rw [after_history_course (orderly_board_start config session responders)] at hlast
  exact ⟨b, hconfig, hlast.resolve_left (Nat.not_le.mpr (lt_of_brought rfl h))⟩

/-- Whoever has not come has no lines. -/
theorem linesOf_eq_nil_of_le {k : Nat} {before : List (Event Answer ρ)}
    (hle : ((start config session responders).board.after before).next ≤ k) :
    linesOf k 0 ((start config session responders).board.enrolledOver before) = [] :=
  linesOf_eq_nil fun _ hline heq =>
    absurd (heq ▸ owner_lt (orderly_board_start config session responders) hline)
      (Nat.not_lt.mpr hle)

/-- A caller that asks only once answers what its exchange has come to. -/
theorem once_of_answers {k n : Nat} {spec : Spec Answer} {f : Resolution Answer → ρ}
    (h : Trod
      ((start config session responders).board.Answers
        ((start config session responders).history deeds) k)
      ((start config session responders).course deeds).board
      ((start config session responders).ledger deeds) k
      (.exchange spec fun r => (.report (f r) : Plan Answer ρ n))) {r : ρ}
    (hr : (start config session responders).board.Answers
      ((start config session responders).history deeds) k r) :
    ∃ ex resolution, linesOf k 0 ((start config session responders).ledger deeds) =
      [(ex, spec)] ∧
      ((start config session responders).course deeds).board.resolution? ex = some resolution ∧
      r = f resolution := by
  have hord := orderly_board_start (ρ := ρ) config session responders
  obtain ⟨ex, hlines, ⟨c, hc, hid, -⟩ | ⟨resolution, htold, hrun⟩⟩ := h.once
  · exact absurd hid (gone_of_answers hord hr c hc)
  · exact ⟨ex, resolution, hlines, hrun.ended, Answers.unique hord hr htold⟩

/-! ### Lines at a moment -/

/-- A line is in the ledger from its registration on. -/
theorem line_of_prefix {before later : List (Event Answer ρ)}
    (heq : (start config session responders).history deeds = before ++ later) {ex : Nat}
    {line : Nat × Spec Answer}
    (hline : ((start config session responders).board.enrolledOver before)[ex]? = some line) :
    ((start config session responders).ledger deeds)[ex]? = some line := by
  rw [ledger, heq, enrolledOver_append]
  exact getElem?_append_of_eq_some hline _

/-- An exchange that is open at a moment of the course is that of its line. -/
theorem matcher_of_line {before later : List (Event Answer ρ)}
    (heq : (start config session responders).history deeds = before ++ later) {n : Nat}
    {e : Entry Answer}
    (he : e ∈ (((start config session responders).board.after before).midst
      n).correlator.entries)
    {k : Nat} {spec : Spec Answer}
    (hline : ((start config session responders).ledger deeds)[e.id]? = some (k, spec)) :
    e.matcher = spec.matcher := by
  have hord := (orderly_board_start (ρ := ρ) config session responders).after before
  have hminded := (minded_board_start (ρ := ρ) config session responders).after
    (orderly_board_start config session responders) before
  obtain ⟨ended, hends, -⟩ := (passes_midst hord.sound n).ends
  obtain ⟨d, hd, hterms⟩ := hends.terms_mem he
  have hid : d.id = e.id := congrArg Prod.fst hterms
  obtain ⟨c, hc, hex⟩ := hminded.owned d hd
  obtain ⟨spec', herrand⟩ := Goal.exchange?_eq_some_iff.mp hex
  have hbook := (booked_history config session responders heq).goals c hc
  have hmatcher := (hord.fits hc herrand).known.matcher d hd rfl
  cases hg : c.goal with
  | readiness tell =>
    rw [hg] at hex
    cases hex
  | exchange ex spec'' m next =>
    rw [hg] at hbook herrand
    obtain ⟨rfl, rfl⟩ := Prod.mk.inj (Option.some.inj herrand)
    have hsame := line_of_prefix heq hbook.1
    rw [hid, hline] at hsame
    obtain ⟨-, rfl⟩ := Prod.mk.inj (Option.some.inj hsame)
    exact (congrArg (·.2.1) hterms).symm.trans hmatcher

/-- A deed that was brought stays so. -/
theorem Brought.append {b : Broker ρ} {d : Deed ρ} {k : Nat} (h : b.Brought deeds k d)
    (more : List (Deed ρ)) : b.Brought (deeds ++ more) k d := by
  obtain ⟨xs, ys, rfl, hnext⟩ := h
  exact ⟨xs, ys ++ more, by rw [List.append_assoc, List.cons_append], hnext⟩

/-- A meeting with a message stays so. -/
theorem meets_append {b : Broker ρ} {before : List (Event Answer ρ)} {n ex : Nat} {m : Json}
    {matcher : Matcher Answer} (h : b.board.Meets (b.history deeds) before n m ex matcher)
    (more : List (Deed ρ)) :
    b.board.Meets (b.history (deeds ++ more)) before n m ex matcher := by
  obtain ⟨later, heq⟩ := h.moment
  refine { h with moment := ⟨later ++ (b.course deeds).history more, ?_⟩ }
  rw [history_append, heq, List.append_assoc, List.cons_append]

/-- What has been registered stays in the ledger. -/
theorem ledger_append (b : Broker ρ) (xs ys : List (Deed ρ)) :
    b.ledger (xs ++ ys) = b.ledger xs ++ (b.board.after (b.history xs)).enrolledOver
      ((b.course xs).history ys) := by
  rw [ledger, history_append, enrolledOver_append, ledger]

/-- A caller keeps its lines. -/
theorem linesOf_ledger_append (b : Broker ρ) (xs ys : List (Deed ρ)) (k : Nat) :
    linesOf k 0 (b.ledger xs) <+: linesOf k 0 (b.ledger (xs ++ ys)) := by
  rw [ledger_append, linesOf_append]
  exact List.prefix_append _ _

/-- Time enough may pass for the deadline of an exchange to come. -/
theorem exists_lapsed {ex : Nat} {line : Nat × Spec Answer}
    (hline : ((start config session responders).ledger deeds)[ex]? = some line) :
    ∃ duration,
      ((start config session responders).course (deeds ++ [.advance duration])).board.Lapsed
        ex := by
  let s := ((start config session responders).course deeds).board
  have hs : s.Orderly := orderly_course
  have hlt : ex < s.correlator.next := by
    rw [← booked_ledger.length_eq]
    exact (List.getElem?_eq_some_iff.mp hline).1
  have hdeadline : s.correlator.deadline? ex = some s.correlator.deadlines[ex] :=
    List.getElem?_eq_getElem hlt
  refine ⟨s.correlator.deadlines[ex], s.correlator.deadlines[ex], ?_⟩
  have hboard : ((start config session responders).course
      (deeds ++ [.advance s.correlator.deadlines[ex]])).board =
        (s.step (.advance s.correlator.deadlines[ex])).1 := by
    rw [course_append]
    exact board_tick _ _
  rw [hboard, now_step_advance hs, ← after_trace hs]
  exact ⟨(hs.evolves _).deadline? hdeadline, Nat.le_add_left _ _⟩

/-- An exchange that an answer gets to at a moment of the course has ended with it. -/
theorem resolution?_of_meets {before : List (Event Answer ρ)} {n ex : Nat} {m : Json}
    {matcher : Matcher Answer}
    (h : (start config session responders).board.Meets
      ((start config session responders).history deeds)
      before n m ex matcher) :
    ∃ seen, ((start config session responders).course deeds).board.resolution? ex =
      some (.matched ⟨matcher.answer m, m, seen⟩) := by
  have hord := orderly_board_start (ρ := ρ) config session responders
  obtain ⟨seen, hout⟩ := h.outcome?_after hord
  rw [after_history_course hord] at hout
  exact ⟨seen, resolution?_eq_some_iff.mpr ⟨_, hout, rfl⟩⟩

/-- How an exchange ends that sees a refusal in nothing: it has met its answer, or it has timed
out, which is at its deadline, or its request could not be sent or the connection was lost. -/
theorem met_or_failed {k ex : Nat} {spec : Spec Answer}
    (hline : ((start config session responders).ledger deeds)[ex]? = some (k, spec))
    (hrejects : ∀ m, spec.matcher.rejects m = false) {o : Outcome Answer}
    (hout : ((start config session responders).course deeds).board.correlator.outcome? ex =
      some o) :
    (∃ before n m seen, (start config session responders).board.Meets
        ((start config session responders).history deeds) before n m ex spec.matcher ∧
      o.resolution = .matched ⟨spec.matcher.answer m, m, seen⟩) ∨
    (∃ seen, o.resolution = .failed ⟨.timeout, seen⟩ ∧
      ((start config session responders).course deeds).board.correlator.deadline? ex =
        some o.time) ∨
    ∃ seen, o.resolution = .failed ⟨.connectionLost, seen⟩ := by
  have hord := orderly_board_start (ρ := ρ) config session responders
  have hplain := (start config session responders).plain_history deeds
  have hnone :
      (start config session responders : Broker ρ).board.correlator.outcome? ex = none := rfl
  have hopen : ∀ {before later n m matcher}, (start config session responders).history deeds =
      before ++ later →
        (((start config session responders).board.after before).midst n).correlator.Stands
        m ex matcher → matcher = spec.matcher := by
    rintro before later n m matcher heq hstands
    obtain ⟨e, he, rfl, rfl⟩ := hstands.mem
    exact matcher_of_line heq he hline
  rw [← after_history_course hord] at hout ⊢
  cases hr : o.resolution with
  | matched a =>
    obtain ⟨before, n, matcher, hmeets⟩ := exists_meets hord hplain hnone hout hr
    obtain ⟨later, heq⟩ := hmeets.moment
    obtain rfl := hopen heq hmeets.stands
    obtain ⟨seen, hlast⟩ := hmeets.outcome?_after hord
    obtain rfl := Option.some.inj (hout.symm.trans hlast)
    exact .inl ⟨before, n, a.raw, seen, hmeets, hr.symm⟩
  | failed f =>
    obtain ⟨cause, seen⟩ := f
    cases cause with
    | timeout =>
      have ht := timely_history_course hord (quiet_board_start config session responders) deeds
      obtain ⟨before, e, later, heq, -, -, htime, c, -, spec', -, xs, e', ys, rfl, hreg,
        hnow⟩ :=
        times_out_at_deadline hord (minded_board_start config session responders)
          watched_board_start punctual_board_start ht (Nat.zero_le ex) hout hr
      refine .inr (.inl ⟨seen, rfl, ?_⟩)
      rw [htime, hnow, heq, List.append_assoc, List.cons_append, after_append, after_cons]
      exact (((hord.after xs).after [e']).evolves _).deadline? hreg.deadline
    | connectionLost => exact .inr (.inr ⟨seen, rfl⟩)
    | rejected =>
      obtain ⟨before, later, n, m, matcher, heq, -, hstands, hended⟩ :=
        exists_answering hord hplain hnone hout (by rw [hr]; exact fun f hf => by cases hf; rfl)
      obtain rfl := hopen heq hstands
      rw [hr] at hended
      obtain ⟨-, seen', ⟨-, hmatched⟩ | ⟨hrefuse, -⟩⟩ := hended
      · cases hmatched
      · rw [Matcher.verdict, hrejects] at hrefuse
        split at hrefuse <;> cases hrefuse

end Course

end Broker

end VenueLink

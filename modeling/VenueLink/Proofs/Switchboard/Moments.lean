import VenueLink.Proofs.Broker.SameConnection
import VenueLink.Proofs.Switchboard.InTime

/-!
# The moments of a course

The signals that have come in are handled one after the other, and each of them at a moment of
its own: in the event in which they are handled, when so many of them have been. At such a
moment a message of the latest connection is offered to the open exchanges. Whatever answers an
exchange does so at such a moment, and the message has got to the exchange then; and as an
answer ends the exchange, it is the only message that could have been its answer.

## Main results

* `Offers.correlator_succ`: what a message does at its moment.
* `exists_meets`: an exchange that was answered has met its answer.
* `Meets.unique`: nobody meets two answers.
-/

namespace VenueLink

open Exchange Correlator

variable {α ρ : Type}

namespace Exchange.Correlator

/-- An open exchange that ends with a message has been got to. -/
theorem stands_of_outcome? {c : Correlator α} (hc : c.Sound) {now : Nat} {m : Json}
    {e : Entry α} (he : e ∈ c.entries) {o : Outcome α}
    (ho : (c.dispatch now m).1.outcome? e.id = some o) : c.Stands m e.id e.matcher := by
  by_cases htaken : e.id ∈ (c.takers m).map Entry.id
  · obtain ⟨d, hd, hid⟩ := List.mem_map.mp htaken
    have hmem := (List.mem_filter.mp hd).1
    obtain rfl : d = e :=
      List.inj_on_of_nodup_map hc.pending_nodup (List.mem_of_mem_take hmem) he hid
    obtain ⟨earlier, later, hsplit⟩ := List.append_of_mem hmem
    have hentries : c.entries = earlier ++ d :: (later ++ c.entries.drop (c.reach m + 1)) := by
      rw [← List.cons_append, ← List.append_assoc, ← hsplit, List.take_append_drop]
    have hlength := congrArg List.length hsplit
    rw [List.length_take, List.length_append, List.length_cons] at hlength
    refine ⟨earlier, d, _, hentries, ⟨rfl, rfl⟩, fun b hb hhalts => ?_⟩
    -- the first exchange that halts the message is not in front of the last one that it gets to
    have hlt : earlier.findIdx (·.Halts m) < earlier.length :=
      List.findIdx_lt_length_of_exists ⟨b, hb, decide_eq_true hhalts⟩
    have hreach : c.reach m = earlier.findIdx (·.Halts m) := by
      rw [reach, hentries, List.findIdx_append, if_pos hlt]
    omega
  · rw [outcome?_dispatch_of_not_mem hc _ _ htaken,
      hc.outcome?_of_pending (List.mem_map_of_mem he)] at ho
    cases ho

end Exchange.Correlator

namespace Switchboard

/-- At a moment in the handling of the signals, after `k` of them, a message is offered to the
open exchanges next. -/
structure Offers (s : Switchboard α ρ) (k : Nat) (m : Json) : Prop where
  handling : ∃ rest, s.ready = .signals :: rest
  first : ∃ rest, (s.midst k).inbox = .message (s.midst k).link.generation m :: rest

section Midst

variable {s : Switchboard α ρ} {rest : List Task} (hr : s.ready = .signals :: rest) (k : Nat)
include hr

/-- In the midst of its handling some signals have been handled. -/
theorem midst_eq_handling :
    s.midst k = ({ s with ready := rest } : Switchboard α ρ).handling k := by
  rw [midst, hr]

/-- And then one more. -/
theorem midst_succ : s.midst (k + 1) = (s.midst k).move .deliver := by
  rw [midst_eq_handling hr, midst_eq_handling hr, handling_add]
  rfl

/-- From one moment to a later one exchanges that were open have ended. -/
theorem passes_midst_le (hs : s.correlator.Sound) {j k : Nat} (hle : j ≤ k) :
    Passes [] (s.midst j) (s.midst k) := by
  obtain ⟨n, rfl⟩ := Nat.exists_eq_add_of_le hle
  rw [midst_eq_handling hr, midst_eq_handling hr, handling_add]
  exact passes_handling n ((passes_handling (s := { s with ready := rest }) j hs).sound hs)

/-- When all signals have been handled, exchanges have ended that were open at a moment before.
-/
theorem passes_midst_next (hs : s.correlator.Sound) :
    Passes [] (s.midst k) (s.occur .next) := by
  have hmidst := passes_midst hs k
  generalize hs₀ : ({ s with ready := rest } : Switchboard α ρ) = s₀
  have hk : s.midst k = s₀.handling k := by rw [midst_eq_handling hr, hs₀]
  have hlast : s.occur .next = ((s₀.handling k).handling s₀.backlog).occur .hush := by
    rw [← handling_add, handling_add_backlog, ← drain_eq_handling, ← hs₀,
      occur_next_of_ready hr]
    rfl
  rw [hk] at hmidst
  rw [hk, hlast]
  exact (passes_handling s₀.backlog (hmidst.sound hs)).trans
    (passes_ready (fun c _ hc => List.mem_filter.mpr ⟨hc, by simp⟩)
      fun id hid => (List.mem_filter.mp hid).1)

/-- An exchange that ends while signals are handled ends at a moment. -/
theorem exists_midst {ex : Nat} (hnone : s.correlator.outcome? ex = none) {o : Outcome α}
    (ho : (s.occur .next).correlator.outcome? ex = some o) (hs : s.correlator.Sound) :
    ∃ k, (s.midst k).correlator.outcome? ex = none ∧
      (s.midst (k + 1)).correlator.outcome? ex = some o := by
  have hzero : (s.midst 0).correlator.outcome? ex = none := by
    rw [midst_eq_handling hr]
    exact hnone
  have hlast : ∃ n, (s.midst n).correlator.outcome? ex = some o := by
    refine ⟨({ s with ready := rest } : Switchboard α ρ).backlog, ?_⟩
    rw [occur_next_of_ready hr] at ho
    change (({ s with ready := rest } : Switchboard α ρ).drain).correlator.outcome? ex =
      some o at ho
    rw [drain_eq_handling] at ho
    rw [midst_eq_handling hr]
    exact ho
  obtain ⟨n, hn⟩ := hlast
  induction n with
  | zero => cases hzero.symm.trans hn
  | succ n ih =>
    cases hbefore : (s.midst n).correlator.outcome? ex with
    | none => exact ⟨n, hbefore, hn⟩
    | some o' =>
      obtain ⟨ended, hends, -⟩ := (passes_midst_le hr hs n.le_succ).ends
      have hsame := hends.outcome?_mono hbefore
      rw [hn] at hsame
      obtain rfl := Option.some.inj hsame
      exact ih hbefore

end Midst

/-! ### Answers -/

section Offers

variable {s : Switchboard α ρ} {k : Nat} {m : Json}

/-- What a message does at its moment. -/
theorem Offers.correlator_succ (h : s.Offers k m) :
    (s.midst (k + 1)).correlator = ((s.midst k).correlator.dispatch (s.midst k).now m).1 := by
  obtain ⟨tasks, hr⟩ := h.handling
  obtain ⟨rest, hinbox⟩ := h.first
  rw [midst_succ hr, move, hinbox]
  exact (congrArg Switchboard.correlator
    (handle_message { s.midst k with inbox := rest } m)).trans
    (correlator_dispatch _ m)

/-- An exchange that a message gets to ends with it, if that is its answer. -/
theorem Offers.outcome?_succ (h : s.Offers k m) (hs : s.correlator.Sound) {ex : Nat}
    {matcher : Matcher α} (hstands : (s.midst k).correlator.Stands m ex matcher)
    (haccepts : matcher.accepts m) :
    ∃ seen, (s.midst (k + 1)).correlator.outcome? ex =
      some ⟨ex, s.now, .matched ⟨matcher.answer m, m, seen⟩⟩ := by
  have hpasses := passes_midst hs k
  have hverdict : matcher.verdict m = .accept := by rw [Matcher.verdict, if_pos haccepts]
  obtain ⟨e, he, rfl, rfl⟩ := hstands.mem_takers (by simp [hverdict])
  refine ⟨(e.record (s.midst k).correlator.cap m).transcript, ?_⟩
  rw [h.correlator_succ, outcome?_dispatch_of_mem (hpasses.sound hs) _ _ he, hpasses.now_eq,
    Entry.ending, matcher_record, if_pos hverdict]

/-- What has ended at a moment has ended for good. -/
theorem Offers.outcome?_next (h : s.Offers k m) (hs : s.correlator.Sound) {ex j : Nat}
    {o : Outcome α} (ho : (s.midst j).correlator.outcome? ex = some o) :
    (s.occur .next).correlator.outcome? ex = some o := by
  obtain ⟨tasks, hr⟩ := h.handling
  obtain ⟨ended, hends, -⟩ := (passes_midst_next hr j hs).ends
  exact hends.outcome?_mono ho

end Offers

/-- Signals are handled in the event only if that is what is ready first. -/
def Event.Plain : Event α ρ → Prop
  | .act step => step.Plain
  | _ => True

/-- An exchange that is answered while signals are handled is answered at a moment, by a message
that gets to it. -/
theorem offers_of_answered_next {s : Switchboard α ρ} (hs : s.correlator.Sound)
    {rest : List Task} (hr : s.ready = .signals :: rest) {ex : Nat}
    (hnone : s.correlator.outcome? ex = none) {o : Outcome α}
    (hout : (s.occur .next).correlator.outcome? ex = some o)
    (hanswered : Answered o.resolution) :
    ∃ k m matcher, s.Offers k m ∧ (s.midst k).correlator.Stands m ex matcher ∧
      EndedBy s.link.generation matcher (.message s.link.generation m) o.resolution := by
  obtain ⟨k, hbefore, hafter⟩ := exists_midst hr hnone hout hs
  have hsound := (passes_midst hs k).sound hs
  have hgeneration : (s.midst k).link.generation = s.link.generation := by
    rw [midst_eq_handling hr]
    exact generation_handling k
  rw [midst_succ hr, move] at hafter
  cases hinbox : (s.midst k).inbox with
  | nil =>
    rw [hinbox] at hafter
    cases hbefore.symm.trans hafter
  | cons x signals =>
    let u : Switchboard α ρ := { s.midst k with inbox := signals }
    have hhandled : (u.handle x).correlator.outcome? ex = some o := by
      rw [hinbox] at hafter
      exact hafter
    obtain ⟨hp, m, rfl⟩ := answering_handle (s := u) hsound hbefore hhandled hanswered
    obtain ⟨d, hd, rfl⟩ := List.mem_map.mp hp
    have hended := endedBy_of_handle (s := u) hsound hd hhandled
    have hdispatch : (u.correlator.dispatch u.now m).1.outcome? d.id = some o := by
      rw [← hhandled, handle_message, correlator_dispatch]
    rw [← hgeneration]
    exact ⟨k, m, d.matcher, ⟨⟨rest, hr⟩, signals, hinbox⟩,
      stands_of_outcome? hsound hd hdispatch, hended.2⟩

/-- An exchange that is answered in an event is answered at a moment of it, by a message that
gets to it. -/
theorem offers_of_answered {s : Switchboard α ρ} (ho : s.Orderly) {e : Event α ρ} (he : e.Plain)
    {ex : Nat} (hnone : s.correlator.outcome? ex = none) {o : Outcome α}
    (hout : (s.occur e).correlator.outcome? ex = some o) (hanswered : Answered o.resolution) :
    e = .next ∧ ∃ k m matcher, s.Offers k m ∧ (s.midst k).correlator.Stands m ex matcher ∧
      EndedBy s.link.generation matcher (.message s.link.generation m) o.resolution := by
  -- an event that handles no signal is a move that hears nothing
  have hsilent : ∀ m : Move α ρ, m.Own → s.move m = s.occur e → s.heard m ≠ [] := by
    intro m hown heq hheard
    obtain ⟨-, payload, hmessage⟩ := answering_move ho hown hnone (heq ▸ hout) hanswered
    rw [hheard] at hmessage
    cases hmessage
  cases e with
  | act step => exact absurd rfl (hsilent (.act step he) trivial (s.occur_act_of_plain he).symm)
  | tick instant => exact absurd rfl (hsilent (.tick instant) trivial rfl)
  | hush => exact absurd rfl (hsilent .hush trivial rfl)
  | collect => cases hnone.symm.trans hout
  | next =>
    by_cases hr : ∃ rest, s.ready = .signals :: rest
    · obtain ⟨rest, hr⟩ := hr
      exact ⟨rfl, offers_of_answered_next ho.sound hr hnone hout hanswered⟩
    · have hnext : s.move .next = s.occur .next := by
        rw [move]
        split
        · next rest heq => exact absurd ⟨rest, heq⟩ hr
        · rfl
      exact absurd rfl (hsilent .next trivial hnext)

/-- At a moment of a run a message gets to the open exchange `ex`, which accepts it: no exchange
that is open and was registered earlier takes the message for itself or sees a refusal in it. -/
structure Meets (s : Switchboard α ρ) (events before : List (Event α ρ)) (k : Nat) (m : Json)
    (ex : Nat) (matcher : Matcher α) : Prop where
  moment : ∃ later, events = before ++ .next :: later
  offers : (s.after before).Offers k m
  stands : ((s.after before).midst k).correlator.Stands m ex matcher
  accepts : matcher.accepts m = true

section Meets

variable {s : Switchboard α ρ} (ho : s.Orderly) {events before : List (Event α ρ)} {k ex : Nat}
  {m : Json} {matcher : Matcher α}
include ho

/-- The exchange ends with its answer at this moment. -/
theorem Meets.outcome?_succ (h : s.Meets events before k m ex matcher) :
    ∃ seen, ((s.after before).midst (k + 1)).correlator.outcome? ex =
      some ⟨ex, (s.after before).now, .matched ⟨matcher.answer m, m, seen⟩⟩ :=
  h.offers.outcome?_succ (ho.after before).sound h.stands h.accepts

/-- The exchange has ended with its answer in the event. -/
theorem Meets.outcome?_next (h : s.Meets events before k m ex matcher) :
    ∃ seen, ((s.after before).occur .next).correlator.outcome? ex =
      some ⟨ex, (s.after before).now, .matched ⟨matcher.answer m, m, seen⟩⟩ := by
  obtain ⟨seen, hout⟩ := h.outcome?_succ ho
  exact ⟨seen, h.offers.outcome?_next (ho.after before).sound hout⟩

/-- The exchange is open until it meets its answer. -/
theorem Meets.outcome?_eq_none (h : s.Meets events before k m ex matcher) :
    (s.after before).correlator.outcome? ex = none := by
  have hsound := (ho.after before).sound
  have hpasses := passes_midst hsound k
  obtain ⟨ended, hends, -⟩ := hpasses.ends
  cases hout : (s.after before).correlator.outcome? ex with
  | none => rfl
  | some o =>
    have hopen := (hpasses.sound hsound).outcome?_of_pending h.stands.pending
    cases hopen.symm.trans (hends.outcome?_mono hout)

/-- Of two events in which the exchange met an answer the first would leave nothing for the
second. -/
theorem Meets.eq_of_prefix (h : s.Meets events before k m ex matcher)
    {before' : List (Event α ρ)} {k' : Nat} {m' : Json} {matcher' : Matcher α}
    (h' : s.Meets events before' k' m' ex matcher') (hle : before <+: before') :
    before = before' := by
  obtain ⟨more, rfl⟩ := hle
  obtain ⟨later, heq⟩ := h.moment
  obtain ⟨later', heq'⟩ := h'.moment
  cases more with
  | nil => exact (List.append_nil before).symm
  | cons e more =>
    rw [heq, List.append_assoc, List.append_right_inj, List.cons_append] at heq'
    obtain ⟨rfl, -⟩ := List.cons.inj heq'
    obtain ⟨seen, hout⟩ := h.outcome?_next ho
    have hmono := (((ho.after before).after [.next]).evolves more).outcome?_mono hout
    have hnone := h'.outcome?_eq_none ho
    rw [after_append, after_cons] at hnone
    cases hnone.symm.trans hmono

/-- So would the first of two moments of one event. -/
theorem Meets.moment_le (h : s.Meets events before k m ex matcher) {k' : Nat} {m' : Json}
    {matcher' : Matcher α} (h' : s.Meets events before k' m' ex matcher') : k' ≤ k := by
  by_contra hlt
  have hsound := (ho.after before).sound
  obtain ⟨tasks, hr⟩ := h.offers.handling
  obtain ⟨seen, hout⟩ := h.outcome?_succ ho
  obtain ⟨ended, hends, -⟩ := (passes_midst_le hr hsound (Nat.lt_of_not_le hlt)).ends
  have hnone := ((passes_midst hsound k').sound hsound).outcome?_of_pending h'.stands.pending
  cases hnone.symm.trans (hends.outcome?_mono hout)

/-- Nobody meets two answers. -/
theorem Meets.unique (h : s.Meets events before k m ex matcher) {before' : List (Event α ρ)}
    {k' : Nat} {m' : Json} {matcher' : Matcher α}
    (h' : s.Meets events before' k' m' ex matcher') : before = before' ∧ k = k' ∧ m = m' := by
  obtain ⟨later, heq⟩ := h.moment
  obtain ⟨later', heq'⟩ := h'.moment
  have hbefore : before = before' :=
    (List.prefix_or_prefix_of_prefix ⟨_, heq.symm⟩ ⟨_, heq'.symm⟩).elim (h.eq_of_prefix ho h')
      fun hle => (h'.eq_of_prefix ho h hle).symm
  subst hbefore
  obtain rfl := Nat.le_antisymm (h'.moment_le ho h) (h.moment_le ho h')
  obtain ⟨rest, hfirst⟩ := h.offers.first
  obtain ⟨rest', hfirst'⟩ := h'.offers.first
  obtain ⟨hsame, -⟩ := List.cons.inj (hfirst.symm.trans hfirst')
  exact ⟨rfl, rfl, (Signal.message.inj hsame).2⟩

/-- Whoever was answered, be it with a refusal, was so at a moment, by a message that got to it.
-/
theorem exists_answering (hplain : ∀ e ∈ events, e.Plain)
    (hnone : s.correlator.outcome? ex = none) {o : Outcome α}
    (hout : (s.after events).correlator.outcome? ex = some o)
    (hanswered : Answered o.resolution) :
    ∃ before later k m matcher, events = before ++ .next :: later ∧
      (s.after before).Offers k m ∧
      ((s.after before).midst k).correlator.Stands m ex matcher ∧
      EndedBy (s.after before).link.generation matcher
        (.message (s.after before).link.generation m)
        o.resolution := by
  obtain ⟨before, e, later, rfl, hbefore, hafter⟩ := exists_deciding ho hnone hout
  have he := hplain e (List.mem_append_right _ List.mem_cons_self)
  obtain ⟨rfl, k, m, matcher, hanswer⟩ :=
    offers_of_answered (ho.after before) he hbefore hafter hanswered
  exact ⟨before, later, k, m, matcher, rfl, hanswer⟩

/-- Whoever has been given an answer has met it. -/
theorem exists_meets (hplain : ∀ e ∈ events, e.Plain) (hnone : s.correlator.outcome? ex = none)
    {o : Outcome α} (hout : (s.after events).correlator.outcome? ex = some o) {a : Matched α}
    (hmatched : o.resolution = .matched a) :
    ∃ before k matcher, s.Meets events before k a.raw ex matcher := by
  obtain ⟨before, later, k, m, matcher, rfl, hoffers, hstands, hended⟩ :=
    exists_answering ho hplain hnone hout (by rw [hmatched]; exact nofun)
  rw [hmatched] at hended
  obtain ⟨-, seen, ⟨hverdict, heq⟩ | ⟨-, heq⟩⟩ := hended
  · obtain rfl := Resolution.matched.inj heq
    refine ⟨before, k, matcher, ⟨later, rfl⟩, hoffers, hstands, ?_⟩
    by_contra hno
    rw [Matcher.verdict, if_neg hno] at hverdict
    split at hverdict <;> cases hverdict
  · cases heq

/-- By the end of the run the exchange has ended with its answer. -/
theorem Meets.outcome?_after (h : s.Meets events before k m ex matcher) :
    ∃ seen, (s.after events).correlator.outcome? ex =
      some ⟨ex, (s.after before).now, .matched ⟨matcher.answer m, m, seen⟩⟩ := by
  obtain ⟨seen, hout⟩ := h.outcome?_next ho
  obtain ⟨later, rfl⟩ := h.moment
  rw [after_append, after_cons]
  exact ⟨seen, (((ho.after before).after [.next]).evolves later).outcome?_mono hout⟩

end Meets

end Switchboard

end VenueLink

import Mathlib.Data.List.DropRight
import VenueLink.Proofs.Exchange.Bare
import VenueLink.Proofs.Exchange.Transcript

/-!
# The cap on transcripts

How many messages an exchange may keep is nothing that anybody decides by. Two runs of the same
moves with different caps are alike (`Alike`): the same exchanges are open at any time, every
step is answered in the same way, and every exchange ends at the same time and in the same way.
What it has kept of the messages are the last ones in both, so that the run with the smaller cap
has the end of what the other one has. A transcript that is handed in from outside is not one
that the exchange has kept: no cap is put on it.

## Main results

* `transcript_of_open`, `transcript_of_ended`: transcripts as the last of the messages that were
  offered.
* `Alike.offeredTo_eq`: an exchange is offered the same messages whatever the cap.
* `cap_decides_nothing`: two runs with different caps.
* `handed_in_stays_uncut`: a transcript from outside that is longer than the cap.
-/

namespace VenueLink.Exchange

variable {α : Type}

/-! ### The last messages -/

/-- What is kept are the last `cap` messages. -/
theorem Window.eq_rtake {cap : Nat} {seen kept : List Json} (h : Window cap seen kept) :
    kept = seen.rtake cap := by
  obtain ⟨⟨dropped, rfl⟩, hlength⟩ := h
  rw [List.length_append] at hlength
  have hdropped : dropped.length + kept.length - cap = dropped.length := by omega
  rw [List.rtake, List.length_append, hdropped, List.drop_left]

/-- The last ones of the last messages are the last messages. -/
theorem rtake_rtake {n m : Nat} (h : n ≤ m) (l : List Json) :
    (l.rtake m).rtake n = l.rtake n := by
  simp only [List.rtake_eq_reverse_take_reverse, List.reverse_reverse, List.take_take,
    Nat.min_eq_left h]

namespace Timeline

open Correlator

/-- An open exchange keeps the last of the messages that it has been offered. -/
theorem transcript_of_open {cap : Nat} {moves : List (Move α)} {e : Entry α}
    (he : e ∈ ((start cap).after moves).correlator.entries) :
    e.transcript = ((start cap).offeredTo e.id moves).rtake cap :=
  ((seen_after cap moves).window e he).eq_rtake

/-- An exchange ends with the last of the messages that it has been offered up to the move that
ends it, unless its resolution comes from outside. -/
theorem transcript_of_ended {cap : Nat} {moves : List (Move α)} {m : Move α} (hm : ¬m.Decrees)
    {o : Outcome α} (ho : o ∈ ((start cap).after moves).written m) :
    o.resolution.transcript = ((start cap).offeredTo o.id moves ++ m.offered).rtake cap := by
  have hseen := seen_after cap moves
  obtain ⟨e, he, hid, htranscript⟩ := transcript_of_written hm ho
  have hwindow := window_noted (hseen.window e he) m
  rw [htranscript, hid, hseen.cap_eq]
  exact hwindow.eq_rtake

/-- An outcome that was written by a resolution from outside is that resolution. -/
theorem written_of_decrees {t : Timeline α} {m : Move α} (hm : m.Decrees) {o : Outcome α}
    (ho : o ∈ t.written m) : ∃ name, m = .step (.resolve name o.resolution) := by
  cases m with
  | expire id instant => exact hm.elim
  | step s =>
    cases s with
    | resolve name r =>
      obtain ⟨e, -, rfl⟩ := List.mem_map.mp ho
      exact ⟨name, rfl⟩
    | _ => exact hm.elim

/-- Two outcomes that one resolution from outside has written, and that are alike, are the same.
-/
theorem eq_of_decrees {t u : Timeline α} {m : Move α} (hm : m.Decrees) {o o' : Outcome α}
    (ho : o ∈ t.written m) (ho' : o' ∈ u.written m) (hbare : o'.bare = o.bare) : o = o' := by
  obtain ⟨name, rfl⟩ := written_of_decrees hm ho
  obtain ⟨name', hmove⟩ := written_of_decrees hm ho'
  obtain ⟨id, time, r⟩ := o
  obtain ⟨id', time', r'⟩ := o'
  obtain rfl : id' = id := Outcome.id_eq hbare
  obtain rfl : time' = time := Outcome.time_eq hbare
  obtain ⟨-, rfl⟩ : name = name' ∧ r = r' := by simpa using hmove
  rfl

/-- An outcome has been written by one of the moves. -/
theorem exists_ending {cap : Nat} {moves : List (Move α)} {id : Nat} {o : Outcome α}
    (ho : ((start cap).after moves).correlator.outcome? id = some o) :
    ∃ before m later, moves = before ++ m :: later ∧
      o ∈ ((start cap).after before).written m := by
  have hstart : (start cap : Timeline α).Sound := sound_start cap
  have hmem := List.mem_of_find?_eq_some ho
  rw [outcomes_after hstart] at hmem
  exact exists_writing hstart hmem

/-- An exchange has ended with a resolution that one of the moves brought from outside. -/
def HandedIn (t : Timeline α) (moves : List (Move α)) (o : Outcome α) : Prop :=
  ∃ before name later, moves = before ++ .step (.resolve name o.resolution) :: later ∧
    o ∈ (t.after before).written (.step (.resolve name o.resolution))

/-! ### Two runs -/

/-- An exchange is offered the same messages in timelines that are alike. -/
theorem Alike.offeredTo_eq {t u : Timeline α} (h : t.Alike u) (id : Nat)
    (moves : List (Move α)) : t.offeredTo id moves = u.offeredTo id moves := by
  induction moves generalizing t u with
  | nil => rfl
  | cons m rest ih => rw [offeredTo, offeredTo, h.next_eq, ih (h.move m)]

/-- An exchange that a move ends in one of two timelines has ended by the same move in the
other. -/
theorem Alike.written_of_written {t u : Timeline α} (h : t.Alike u) (hu : u.Sound) {m : Move α}
    {o o' : Outcome α} (ho : o ∈ t.written m) {later : List (Move α)}
    (ho' : ((u.move m).after later).correlator.outcome? o.id = some o') :
    o' ∈ u.written m ∧ o'.bare = o.bare := by
  obtain ⟨p, hp, hbare⟩ := h.exists_written ho
  have hid : p.id = o.id := Outcome.id_eq hbare
  have hlast := outcome?_after (move_spec hu m).1 later (outcome?_of_written hu hp).2
  rw [hid, ho'] at hlast
  obtain rfl := Option.some.inj hlast
  exact ⟨hp, hbare⟩

/-- Runs of the same steps are runs of the same moves. -/
theorem Alike.exists_moves {t u : Timeline α} (h : t.Alike u) (steps : List (Step α)) :
    ∃ moves, t.run steps = t.after moves ∧ u.run steps = u.after moves := by
  induction steps generalizing t u with
  | nil => exact ⟨[], rfl, rfl⟩
  | cons s rest ih =>
    obtain ⟨moves, ht, hu⟩ := ih (h.step s)
    refine ⟨t.movesOf s ++ moves, ?_, ?_⟩
    · rw [after_append, ← step_eq_after, ← ht]
      rfl
    · rw [h.movesOf_eq s, after_append, ← step_eq_after, ← hu]
      rfl

/-- **The cap decides nothing.** After any moves from the start, once with the cap `c₁` and once
with a cap `c₂` that is not smaller:

* it is the same instant, the same exchanges are open, and what an open exchange has kept in the
  first run are the last `c₁` messages of what it has kept in the second one;
* every step is answered in the same way, transcripts apart;
* the same exchanges have ended, at the same time and in the same way, transcripts apart, and a
  transcript of the first run is the last `c₁` messages of the one of the second run, unless the
  resolution has been handed in from outside, the same in both runs, with more messages than
  that.

Runs of the same steps are such moves, the same ones in both. -/
theorem cap_decides_nothing {c₁ c₂ : Nat} (h : c₁ ≤ c₂) :
    (∀ moves : List (Move α),
      let t := (start c₁).after moves
      let u := (start c₂).after moves
      t.now = u.now ∧
      t.correlator.pendingIds = u.correlator.pendingIds ∧
      (∀ e ∈ t.correlator.entries, ∀ e' ∈ u.correlator.entries, e.id = e'.id →
        e.transcript = e'.transcript.rtake c₁) ∧
      (∀ s, (t.act s).2.bare = (u.act s).2.bare) ∧
      (∀ id, (t.correlator.outcome? id).map Outcome.bare =
        (u.correlator.outcome? id).map Outcome.bare) ∧
      ∀ id o o', t.correlator.outcome? id = some o → u.correlator.outcome? id = some o' →
        o.resolution.transcript = o'.resolution.transcript.rtake c₁ ∨
        o = o' ∧ HandedIn (start c₁) moves o ∧ c₁ < o.resolution.transcript.length) ∧
    ∀ steps : List (Step α),
      (∃ moves, (start c₁).run steps = (start c₁).after moves ∧
        (start c₂).run steps = (start c₂).after moves) ∧
      ∀ s, (((start c₁).run steps).step s).2.bare = (((start c₂).run steps).step s).2.bare := by
  have hstart : (start c₁ : Timeline α).Alike (start c₂) := alike_start c₁ c₂
  refine ⟨fun moves => ?_, fun steps => ?_⟩
  swap
  · obtain ⟨moves, ht, hu⟩ := hstart.exists_moves steps
    refine ⟨⟨moves, ht, hu⟩, fun s => ?_⟩
    rw [ht, hu]
    exact (hstart.after moves).reply_eq s
  have halike := hstart.after moves
  refine ⟨halike.now_eq, halike.pendingIds_eq, ?_, halike.reply_eq, halike.outcome?_eq, ?_⟩
  · intro e he e' he' hid
    rw [transcript_of_open he, transcript_of_open he', rtake_rtake h, hstart.offeredTo_eq, hid]
  · intro id o o' ho ho'
    obtain ⟨before, m, later, rfl, hwritten⟩ := exists_ending ho
    have hbefore := hstart.after before
    rw [← id_of_outcome? ho, after_append] at ho'
    obtain ⟨hwritten', hbare⟩ :=
      hbefore.written_of_written (sound_after (sound_start c₂) before) hwritten ho'
    by_cases hm : m.Decrees
    · obtain rfl := eq_of_decrees hm hwritten hwritten' hbare
      obtain ⟨name, rfl⟩ := written_of_decrees hm hwritten
      rcases Nat.lt_or_ge c₁ o.resolution.transcript.length with hlong | hshort
      · exact .inr ⟨rfl, ⟨before, name, later, rfl, hwritten⟩, hlong⟩
      · left
        rw [List.rtake, Nat.sub_eq_zero_of_le hshort, List.drop_zero]
    · left
      have hid : o'.id = o.id := Outcome.id_eq hbare
      rw [transcript_of_ended hm hwritten, transcript_of_ended hm hwritten', rtake_rtake h,
        hstart.offeredTo_eq, hid]

/-- Two exchanges hear some news and then of an order, which is the answer for the second one;
the first one runs into its deadline. -/
def orderAfterNews : List (Move Nat) :=
  [.step (.register "first" heedless 100),
    .step (.register "second" { accepts := isOrder, answer := fun _ => 1 } 100),
    .step (.dispatch (.string "news")), .step (.dispatch (.string "order")), .expire 0 100]

/-- With room for one message the second exchange ends as it does with room for three, and has
kept the last of its two messages. -/
theorem order_ends_alike :
    let t := (start 1).after orderAfterNews
    let u := (start 3).after orderAfterNews
    let o : Outcome Nat := ⟨1, 0, .matched ⟨1, .string "order", [.string "order"]⟩⟩
    let o' : Outcome Nat :=
      ⟨1, 0, .matched ⟨1, .string "order", [.string "news", .string "order"]⟩⟩
    1 ≤ 3 ∧ t.correlator.pendingIds = u.correlator.pendingIds ∧
      t.correlator.outcome? 1 = some o ∧ u.correlator.outcome? 1 = some o' ∧
      o.resolution.transcript = o'.resolution.transcript.rtake 1 := by
  intro t u o o'
  obtain ⟨hmoves, -⟩ := cap_decides_nothing (α := Nat) (by decide : 1 ≤ 3)
  obtain ⟨-, hpending, -, -, -, hended⟩ := hmoves orderAfterNews
  have ho : t.correlator.outcome? 1 = some o := by decide +kernel
  have ho' : u.correlator.outcome? 1 = some o' := by decide +kernel
  refine ⟨by decide, hpending, ho, ho', ?_⟩
  rcases hended 1 o o' ho ho' with hlast | ⟨-, -, hlong⟩
  · exact hlast
  · exact absurd hlong (by decide)

/-- An exchange is ended by hand, with a transcript of two messages. -/
def endedByHand : List (Move Nat) :=
  [.step (.register "first" heedless 100),
    .step (.resolve "first" (.matched ⟨1, .string "order", [.string "news", .string "order"]⟩))]

/-- What is handed in from outside stays as it is, also where there is room for one message
only: the run with the smaller cap does not have the last one of what the other one has. -/
theorem handed_in_stays_uncut :
    let t := (start 1).after endedByHand
    let u := (start 3).after endedByHand
    ∃ o, 1 ≤ 3 ∧ t.correlator.outcome? 0 = some o ∧ u.correlator.outcome? 0 = some o ∧
      o.resolution.transcript ≠ o.resolution.transcript.rtake 1 :=
  ⟨⟨0, 0, .matched ⟨1, .string "order", [.string "news", .string "order"]⟩⟩,
    by decide, by decide +kernel, by decide +kernel, by decide⟩

end Timeline

end VenueLink.Exchange

import VenueLink.Proofs.Exchange.Caps

/-!
# Messages that nobody heeds

A message that every open exchange passes on ends none of them. It is noted, and that is all:
when such messages are put into a run wherever one likes, the run with them and the run without
them stay alike (`Alike`), and an exchange has the extra messages in its transcript as far as
there is room for them.

`Mixed` is a run with extra messages: `plain` leaves them out, and `full` offers them where they
stand. `heard` is what an exchange is offered in such a run, where each message is still known
to be extra or not.

## Main results

* `Alike.dispatch_of_unheeded`: such a message makes no difference but for transcripts.
* `Alike.plain_full`: the runs with and without the extra messages are alike.
* `offeredTo_full`, `offeredTo_plain`: what an exchange is offered in the two runs.
* `unheeded_change_transcripts_only`: the two runs, their replies, outcomes and transcripts.
-/

namespace VenueLink.Exchange

variable {α β : Type}

/-- Something that a run consists of, or a message that is put in between. -/
inductive Mixed (β : Type) where
  | own (b : β)
  | extra (message : Json)

namespace Mixed

/-- What is not extra. -/
def own? : Mixed β → Option β
  | own b => some b
  | extra _ => none

/-- What is left without the extra messages. -/
def plain (l : List (Mixed β)) : List β :=
  l.filterMap own?

/-- The message, if it is extra. -/
def extra? : Mixed β → Option Json
  | own _ => none
  | extra message => some message

/-- The extra messages. -/
def extras (l : List (Mixed β)) : List Json :=
  l.filterMap extra?

/-- An extra message as one more `b` of the run. -/
def merge (offer : Json → β) : Mixed β → β
  | own b => b
  | extra message => offer message

/-- The run with the extra messages in their places. -/
def full (offer : Json → β) (l : List (Mixed β)) : List β :=
  l.map (merge offer)

/-- The moves of one's own, one part after the other. -/
theorem plain_append (l l' : List (Mixed β)) : plain (l ++ l') = plain l ++ plain l' :=
  List.filterMap_append

/-- All moves, one part after the other. -/
theorem full_append (offer : Json → β) (l l' : List (Mixed β)) :
    full offer (l ++ l') = full offer l ++ full offer l' :=
  List.map_append

/-- Without extras all moves are one's own. -/
theorem plain_map_own (l : List β) : plain (l.map own) = l := by
  rw [plain, List.filterMap_map]
  exact List.filterMap_some

/-- The extras, one part after the other. -/
theorem extras_append (l l' : List (Mixed β)) : extras (l ++ l') = extras l ++ extras l' :=
  List.filterMap_append

/-- One's own moves are no extras. -/
theorem extras_map_own (l : List β) : extras (l.map own) = [] := by
  rw [extras, List.filterMap_map, List.filterMap_eq_nil_iff]
  exact fun _ _ => rfl

/-- Without extras there is nothing to add. -/
theorem full_map_own (offer : Json → β) (l : List β) : full offer (l.map own) = l := by
  rw [full, List.map_map]
  exact List.map_id _

end Mixed

open Mixed

/-! ### A message that all pass on -/

namespace Correlator

/-- The exchanges that a message answers and that hand what they have seen to the connection. -/
def pruners (c : Correlator α) (m : Json) : List (Entry α) :=
  (c.takers m).filter fun e => e.matcher.verdict m = .accept && e.matcher.prunes

/-- The takers of a message do not depend on transcripts. -/
theorem takers_bare (c : Correlator α) (m : Json) :
    c.bare.takers m = (c.takers m).map Entry.bare := by
  have hreach : c.bare.reach m = c.reach m := by
    rw [reach, bare, List.findIdx_map]
    rfl
  rw [takers, hreach, bare, ← List.map_take, List.filter_map]
  rfl

/-- Nor do those who have it pruned. -/
theorem pruners_bare (c : Correlator α) (m : Json) :
    c.bare.pruners m = (c.pruners m).map Entry.bare := by
  rw [pruners, takers_bare, List.filter_map]
  rfl

/-- Those are open exchanges. -/
theorem mem_of_mem_pruners {c : Correlator α} {m : Json} {e : Entry α} (he : e ∈ c.pruners m) :
    e ∈ c.entries :=
  List.mem_of_mem_take (List.mem_filter.mp (List.mem_filter.mp he).1).1

end Correlator

namespace Timeline

open Correlator

/-- Every open exchange passes on the message. -/
def Unheeded (t : Timeline α) (message : Json) : Prop :=
  ∀ e ∈ t.correlator.entries, e.matcher.verdict message = .pass

instance (t : Timeline α) (message : Json) : Decidable (t.Unheeded message) := by
  unfold Unheeded
  infer_instance

/-- Nothing is reported of such a message. -/
theorem Unheeded.act_eq {t : Timeline α} {message : Json} (h : t.Unheeded message) :
    (t.act (.dispatch message)).2 = .dispatched [] [] := by
  simp only [act, dispatch_of_pass h, List.map_nil]

/-- A message that nobody heeds ends no exchange. -/
theorem Unheeded.written_eq {t : Timeline α} {message : Json} (h : t.Unheeded message) :
    t.written (.step (.dispatch message)) = [] := by
  have htakers : t.correlator.takers message = [] := by
    rw [takers, List.filter_eq_nil_iff]
    intro e he
    simp [h e (List.mem_of_mem_take he)]
  simp only [written, decided_eq, htakers, List.map_nil]

/-- It makes no difference but for transcripts. -/
theorem Alike.dispatch_of_unheeded {t u : Timeline α} (h : t.Alike u) {message : Json}
    (hu : u.Unheeded message) : t.Alike (u.act (.dispatch message)).1 := by
  have hsame : (u.act (.dispatch message)).1.bare = u.bare := by
    change { u.bare with correlator := (u.correlator.dispatch u.now message).1.bare } = u.bare
    rw [bare_dispatch_of_pass hu]
    rfl
  exact h.bare_eq.trans hsame.symm

/-! ### Runs with extra messages -/

/-- An extra message as a move. -/
def Move.offer (message : Json) : Move α :=
  .step (.dispatch message)

/-- In a run that goes on by `f`, every extra message is one that all exchanges pass on which
are open at that point. -/
def Idle (f : Timeline α → β → Timeline α) (offer : Json → β) (t : Timeline α)
    (l : List (Mixed β)) : Prop :=
  ∀ before message later, l = before ++ .extra message :: later →
    ((full offer before).foldl f t).Unheeded message

section Idle

variable {f : Timeline α → β → Timeline α} {offer : Json → β} {t : Timeline α}
  {l : List (Mixed β)}

/-- Without moves there are no extras to be heeded. -/
theorem idle_nil : Idle f offer t [] :=
  fun _ _ _ h => absurd h.symm (List.append_ne_nil_of_right_ne_nil _ (List.cons_ne_nil _ _))

/-- A move of one's own is no extra. -/
theorem idle_own_cons {b : β} : Idle f offer t (.own b :: l) ↔ Idle f offer (f t b) l := by
  constructor
  · rintro h before message later rfl
    exact h (.own b :: before) message later rfl
  · intro h before message later heq
    rcases List.cons_eq_append_iff.mp heq with ⟨rfl, hhead⟩ | ⟨before, rfl, rfl⟩
    · cases hhead
    · exact h before message later rfl

/-- An extra is heeded by nobody, nor are later ones. -/
theorem idle_extra_cons {message : Json} :
    Idle f offer t (.extra message :: l) ↔
      t.Unheeded message ∧ Idle f offer (f t (offer message)) l := by
  constructor
  · refine fun h => ⟨h [] message l rfl, ?_⟩
    rintro before message' later rfl
    exact h (.extra message :: before) message' later rfl
  · rintro ⟨hhere, h⟩ before message' later heq
    rcases List.cons_eq_append_iff.mp heq with ⟨rfl, hhead⟩ | ⟨before, rfl, rfl⟩
    · cases hhead
      exact hhere
    · exact h before message' later rfl

/-- What comes before the first extra message does not matter. -/
theorem idle_own_append (own : List β) :
    Idle f offer t (own.map .own ++ l) ↔ Idle f offer (own.foldl f t) l := by
  induction own generalizing t with
  | nil => exact Iff.rfl
  | cons b rest ih => exact idle_own_cons.trans ih

/-- So it is in the first part of the moves. -/
theorem Idle.of_append {l' : List (Mixed β)} (h : Idle f offer t (l ++ l')) :
    Idle f offer t l := by
  rintro before message later rfl
  exact h before message (later ++ l') (List.append_assoc ..)

end Idle

/-- The runs with and without the extra messages are alike. -/
theorem Alike.plain_full {t u : Timeline α} (h : t.Alike u) {l : List (Mixed (Move α))}
    (hl : Idle Timeline.move .offer u l) :
    (t.after (plain l)).Alike (u.after (full .offer l)) := by
  -- both runs make a move of their own; of an extra message only the second one knows
  induction l generalizing t u with
  | nil => exact h
  | cons x rest ih =>
    cases x with
    | own m => exact ih (h.move m) (idle_own_cons.mp hl)
    | extra message =>
      obtain ⟨hpass, hrest⟩ := idle_extra_cons.mp hl
      exact ih (h.dispatch_of_unheeded hpass) hrest

/-! ### What an exchange is offered -/

/-- What is offered by a move or as an extra message. -/
def offers : Mixed (Move α) → List (Mixed Json)
  | .own m => m.offered.map .own
  | .extra message => [.extra message]

/-- What is offered to an exchange once it has been registered, extra or not. -/
def heard (t : Timeline α) (id : Nat) : List (Mixed (Move α)) → List (Mixed Json)
  | [] => []
  | x :: rest =>
    (if id < t.correlator.next then offers x else []) ++ (t.move (x.merge .offer)).heard id rest

/-- In the run with the extra messages the exchange is offered all of it. -/
theorem offeredTo_full (t : Timeline α) (id : Nat) (l : List (Mixed (Move α))) :
    t.offeredTo id (full .offer l) = full (fun m => m) (t.heard id l) := by
  induction l generalizing t with
  | nil => rfl
  | cons x rest ih =>
    have hx : full (fun m => m) (offers x) = (x.merge .offer).offered := by
      cases x with
      | own m => exact full_map_own _ _
      | extra message => rfl
    rw [heard, full_append, apply_ite (full fun m => m), hx, ← ih]
    rfl

/-- In the run without them it is offered what is not extra. -/
theorem Alike.offeredTo_plain {t u : Timeline α} (h : t.Alike u) (id : Nat)
    {l : List (Mixed (Move α))} (hl : Idle Timeline.move .offer u l) :
    t.offeredTo id (plain l) = plain (u.heard id l) := by
  induction l generalizing t u with
  | nil => rfl
  | cons x rest ih =>
    rw [heard, plain_append]
    cases x with
    | own m =>
      rw [apply_ite plain]
      simp only [offers]
      rw [plain_map_own, ← h.next_eq]
      exact congrArg _ (ih (h.move m) (idle_own_cons.mp hl))
    | extra message =>
      obtain ⟨hpass, hrest⟩ := idle_extra_cons.mp hl
      have hnone :
          plain (if id < u.correlator.next then [(.extra message : Mixed Json)] else []) =
            [] := by
        split <;> rfl
      rw [offers, hnone]
      exact ih (h.dispatch_of_unheeded hpass) hrest

/-- What a message hands to the connection is, for every exchange that prunes, what it has been
offered last, the message included. -/
theorem pruned_after (cap : Nat) (moves : List (Move α)) (message : Json) :
    let t := (start cap).after moves
    (t.correlator.dispatch t.now message).2.pruned = (t.correlator.pruners message).flatMap
      fun e => ((start cap).offeredTo e.id moves ++ [message]).rtake cap := by
  intro t
  have hseen := seen_after cap moves
  rw [pruned_dispatch, ← pruners, List.flatMap_congr]
  intro e he
  have hwindow := (hseen.window e (mem_of_mem_pruners he)).record message
  rw [hseen.cap_eq]
  exact hwindow.eq_rtake

/-- In timelines that are alike the same exchanges prune. -/
theorem Alike.pruners_flatMap {t u : Timeline α} (h : t.Alike u) (message : Json)
    (g : Nat → List Json) :
    (u.correlator.pruners message).flatMap (fun e => g e.id) =
      (t.correlator.pruners message).flatMap fun e => g e.id := by
  have hbare : ∀ c : Correlator α, (c.pruners message).flatMap (fun e => g e.id) =
      (c.bare.pruners message).flatMap fun e => g e.id := by
    intro c
    rw [pruners_bare, List.flatMap_map]
    rfl
  rw [hbare u.correlator, ← h.correlator_eq, ← hbare]

/-! ### Steps -/

/-- No open exchange is past its deadline. -/
def Settled (t : Timeline α) : Prop :=
  t.correlator.due t.now = []

/-- At the start nothing is past its deadline. -/
theorem settled_start (cap : Nat) : (start cap : Timeline α).Settled :=
  List.mergeSort_nil

/-- That does not depend on transcripts. -/
theorem settled_bare {t : Timeline α} : t.bare.Settled ↔ t.Settled := by
  rw [Settled, correlator_bare, due_bare, List.map_eq_nil_iff]
  rfl

/-- Nor on the cap. -/
theorem Alike.settled {t u : Timeline α} (h : t.Alike u) (hu : u.Settled) : t.Settled := by
  rw [← settled_bare, h.bare_eq]
  exact settled_bare.mpr hu

/-- What is left of the registry once time has passed is not due. -/
theorem settled_elapse {t : Timeline α} (h : t.Sound) {instant : Nat} (hnow : t.now ≤ instant) :
    (t.elapse instant).Settled := by
  rw [Settled, List.eq_nil_iff_forall_not_mem]
  intro e he
  obtain ⟨hopen, hdue⟩ := mem_due.mp he
  have hended := ends_elapse h.correlator instant
  have hlimit : e.deadline ≤ instant := by
    rw [elapse, Nat.max_eq_right hnow] at hdue
    exact hdue
  have hmem : e ∈ t.correlator.due instant :=
    mem_due.mpr ⟨entries_elapse_subset instant t.correlator hopen, hlimit⟩
  have hnone := ((follows_elapse h instant).sound h).correlator.outcome?_of_pending
    (List.mem_map_of_mem hopen)
  have hsome := hended.outcome?_of_mem h.correlator (List.mem_map_of_mem hmem)
  exact Option.some_ne_none _ (hsome.symm.trans hnone)

/-- After a step nothing is past its deadline. -/
theorem settled_step {t : Timeline α} (h : t.Sound) (s : Step α) : (t.step s).1.Settled :=
  settled_elapse (move_spec h (.step s)).1 (Nat.le_refl _)

/-- A step keeps order. -/
theorem sound_step {t : Timeline α} (h : t.Sound) (s : Step α) : (t.step s).1.Sound := by
  rw [step_eq_after]
  exact sound_after h _

/-- An extra message as a step is one move, since it makes nothing due. -/
theorem Unheeded.step_eq {t : Timeline α} {message : Json} (h : t.Unheeded message)
    (hs : t.Settled) : (t.step (.dispatch message)).1 = t.move (.offer message) := by
  have hsettled : (t.act (.dispatch message)).1.Settled :=
    Alike.settled (Alike.dispatch_of_unheeded (t := t) rfl h).symm hs
  rw [step_eq_after, movesOf, hsettled]
  rfl

/-- Runs of steps with extra messages are runs of moves with the same extra messages. -/
theorem Alike.exists_mixed {t u : Timeline α} (h : t.Alike u) (hu : u.Sound) (hs : u.Settled)
    {l : List (Mixed (Step α))} (hl : Idle (fun t s => (t.step s).1) .dispatch u l) :
    ∃ moves, Idle Timeline.move .offer u moves ∧ extras moves = extras l ∧
      t.run (plain l) = t.after (plain moves) ∧
      u.run (full .dispatch l) = u.after (full .offer moves) := by
  induction l generalizing t u with
  | nil => exact ⟨[], idle_nil, rfl, rfl, rfl⟩
  | cons x rest ih =>
    cases x with
    | own s =>
      obtain ⟨moves, hidle, hextras, ht, hfull⟩ :=
        ih (h.step s) (sound_step hu s) (settled_step hu s) (idle_own_cons.mp hl)
      refine ⟨(u.movesOf s).map .own ++ moves, ?_, ?_, ?_, ?_⟩
      · rw [step_eq_after] at hidle
        exact (idle_own_append _).mpr hidle
      · rw [extras_append, extras_map_own]
        exact hextras
      · rw [plain_append, plain_map_own, ← h.movesOf_eq s, after_append, ← step_eq_after, ← ht]
        rfl
      · rw [full_append, full_map_own, after_append, ← step_eq_after, ← hfull]
        rfl
    | extra message =>
      obtain ⟨hpass, hrest⟩ := idle_extra_cons.mp hl
      have hstep := hpass.step_eq hs
      have halike : t.Alike (u.step (.dispatch message)).1 :=
        hstep ▸ h.dispatch_of_unheeded hpass
      obtain ⟨moves, hidle, hextras, ht, hfull⟩ :=
        ih halike (sound_step hu _) (settled_step hu _) hrest
      refine ⟨.extra message :: moves, ?_, congrArg (message :: ·) hextras, ht, ?_⟩
      · exact idle_extra_cons.mpr ⟨hpass, hstep ▸ hidle⟩
      · exact hfull.trans (by rw [hstep]; rfl)

/-- An exchange that has ended in both runs has ended by the same move, which is not an extra
one, and with the last of what it was offered in each, unless its resolution comes from outside.
-/
theorem exists_common_ending {cap : Nat} {l : List (Mixed (Move α))}
    (hl : Idle Timeline.move .offer (start cap) l) {id : Nat} {o o' : Outcome α}
    (ho : ((start cap).after (plain l)).correlator.outcome? id = some o)
    (ho' : ((start cap).after (full .offer l)).correlator.outcome? id = some o') :
    ∃ before m later, l = before ++ .own m :: later ∧
      o ∈ ((start cap).after (plain before)).written m ∧
      o' ∈ ((start cap).after (full .offer before)).written m ∧
      (m.Decrees → o = o') ∧
      (¬m.Decrees →
        o.resolution.transcript = (plain ((start cap).heard id before) ++ m.offered).rtake cap ∧
        o'.resolution.transcript =
          (full (fun m => m) ((start cap).heard id before) ++ m.offered).rtake cap) := by
  have hstart : (start cap : Timeline α).Alike (start cap) := alike_start cap cap
  -- the run with the extra messages is the one to split: each of its moves stands for one of
  -- `l`
  obtain ⟨before', m', later', hsplit, hwritten'⟩ := exists_ending ho'
  obtain ⟨before, behind, rfl, rfl, hbehind⟩ := List.map_eq_append_iff.mp hsplit
  obtain ⟨x, later, rfl, rfl, rfl⟩ := List.map_eq_cons_iff.mp hbehind
  have hidle := hl.of_append
  cases x with
  | extra message =>
    have hpass := hl before message later rfl
    have hnothing : ((start cap).after (full .offer before)).written (.offer message) = [] :=
      hpass.written_eq
    exact absurd (hnothing ▸ hwritten') List.not_mem_nil
  | own m =>
    have hsound : ((start cap).after (plain before)).Sound := sound_after (sound_start cap) _
    have hwritten'' : o' ∈ ((start cap).after (full .offer before)).written m := hwritten'
    rw [← id_of_outcome? ho', plain_append, after_append] at ho
    obtain ⟨hwritten, hbare⟩ :=
      (hstart.plain_full hidle).symm.written_of_written hsound hwritten'' ho
    have hid : o.id = o'.id := Outcome.id_eq hbare
    refine ⟨before, m, later, rfl, hwritten, hwritten'', fun hm => ?_, fun hm => ?_⟩
    · exact eq_of_decrees hm hwritten hwritten'' hbare.symm
    · rw [transcript_of_ended hm hwritten, transcript_of_ended hm hwritten'', offeredTo_full,
        hstart.offeredTo_plain o.id hidle, hid, id_of_outcome? ho']
      exact ⟨rfl, rfl⟩

/-- **Messages that nobody heeds change transcripts only.** After any moves from the start, once
without extra messages and once with them, where each is one that all exchanges pass on which
are open then:

* it is the same instant, the same exchanges are open, every step is answered in the same way,
  transcripts apart, and the same exchanges have ended, at the same time and in the same way,
  transcripts apart; of a further message that all pass on nothing is reported;
* an open exchange has kept the last messages of those that it was offered, without the extra
  messages in one run and with them in the other, and so have the exchanges that prune when a
  message answers them;
* so has an exchange that has ended, by the same move in both runs; a resolution that the move
  brings from outside is the same in both.

Runs of steps with such messages are such moves with the same messages. The beginnings of a run
are runs of the same kind (`Idle.of_append`), so that all this is so at any point of it. -/
theorem unheeded_change_transcripts_only (cap : Nat) :
    (∀ l : List (Mixed (Move α)), Idle Timeline.move .offer (start cap) l →
      let t := (start cap).after (plain l)
      let u := (start cap).after (full .offer l)
      let heard := fun id => (start cap).heard id l
      (t.now = u.now ∧ t.correlator.pendingIds = u.correlator.pendingIds ∧
        (∀ s, (t.act s).2.bare = (u.act s).2.bare) ∧
        (∀ id, (t.correlator.outcome? id).map Outcome.bare =
          (u.correlator.outcome? id).map Outcome.bare) ∧
        ∀ message, u.Unheeded message → (u.act (.dispatch message)).2 = .dispatched [] []) ∧
      ((∀ e ∈ t.correlator.entries, e.transcript = (plain (heard e.id)).rtake cap) ∧
        (∀ e ∈ u.correlator.entries, e.transcript =
          (full (fun m => m) (heard e.id)).rtake cap) ∧
        ∀ m,
          (t.correlator.dispatch t.now m).2.pruned = (t.correlator.pruners m).flatMap (fun e =>
            (plain (heard e.id) ++ [m]).rtake cap) ∧
          (u.correlator.dispatch u.now m).2.pruned = (t.correlator.pruners m).flatMap fun e =>
            (full (fun m => m) (heard e.id) ++ [m]).rtake cap) ∧
      ∀ id o o', t.correlator.outcome? id = some o → u.correlator.outcome? id = some o' →
        ∃ before m later, l = before ++ .own m :: later ∧
          o ∈ ((start cap).after (plain before)).written m ∧
          o' ∈ ((start cap).after (full .offer before)).written m ∧
          (m.Decrees → o = o') ∧
          (¬m.Decrees →
            o.resolution.transcript =
              (plain ((start cap).heard id before) ++ m.offered).rtake cap ∧
            o'.resolution.transcript =
              (full (fun m => m) ((start cap).heard id before) ++ m.offered).rtake cap)) ∧
    ∀ steps : List (Mixed (Step α)),
      Idle (fun t s => (t.step s).1) .dispatch (start cap) steps →
      (∃ moves, Idle Timeline.move .offer (start cap) moves ∧ extras moves = extras steps ∧
        (start cap).run (plain steps) = (start cap).after (plain moves) ∧
        (start cap).run (full .dispatch steps) = (start cap).after (full .offer moves)) ∧
      ∀ s, (((start cap).run (plain steps)).step s).2.bare =
        (((start cap).run (full .dispatch steps)).step s).2.bare := by
  have hstart : (start cap : Timeline α).Alike (start cap) := alike_start cap cap
  refine ⟨fun l hl => ?_, fun steps hsteps => ?_⟩
  swap
  · obtain ⟨moves, hidle, hextras, ht, hu⟩ :=
      hstart.exists_mixed (sound_start cap) (settled_start cap) hsteps
    refine ⟨⟨moves, hidle, hextras, ht, hu⟩, fun s => ?_⟩
    rw [ht, hu]
    exact (hstart.plain_full hidle).reply_eq s
  have halike := hstart.plain_full hl
  have hplain := fun id => hstart.offeredTo_plain id hl
  have hfull := fun id => (start cap).offeredTo_full id l
  refine ⟨⟨halike.now_eq, halike.pendingIds_eq, halike.reply_eq, halike.outcome?_eq,
    fun _ h => h.act_eq⟩, ⟨fun e he => ?_, fun e he => ?_, fun m => ⟨?_, ?_⟩⟩,
    fun id o o' ho ho' => exists_common_ending hl ho ho'⟩
  · rw [transcript_of_open he, hplain]
  · rw [transcript_of_open he, hfull]
  · simp only [pruned_after, hplain]
  · simp only [pruned_after, hfull]
    exact halike.pruners_flatMap m
      fun id => (full (fun m => m) ((start cap).heard id l) ++ [m]).rtake cap

/-- The second of two exchanges waits for an order; before the order, some news are put in. -/
def newsPutIn : List (Mixed (Move Nat)) :=
  [.own (.step (.register "first" heedless 100)),
    .own (.step (.register "second" { accepts := isOrder, answer := fun _ => 1 } 100)),
    .extra (.string "news"), .own (.step (.dispatch (.string "order"))), .own (.expire 0 100)]

/-- With the news or without them, the second exchange ends with the order, and it is open as
long as before; but the news are in its transcript. -/
theorem news_do_not_matter :
    let t := (start 3).after (plain newsPutIn)
    let u := (start 3).after (full .offer newsPutIn)
    Idle Timeline.move .offer (start 3) newsPutIn ∧ t.now = u.now ∧
      t.correlator.pendingIds = u.correlator.pendingIds ∧
      t.correlator.outcome? 1 = some ⟨1, 0, .matched ⟨1, .string "order", [.string "order"]⟩⟩ ∧
      u.correlator.outcome? 1 =
        some ⟨1, 0, .matched ⟨1, .string "order", [.string "news", .string "order"]⟩⟩ := by
  intro t u
  have hidle : Idle Timeline.move .offer (start 3) newsPutIn := by
    refine idle_own_cons.mpr (idle_own_cons.mpr (idle_extra_cons.mpr ⟨by decide, ?_⟩))
    exact idle_own_cons.mpr (idle_own_cons.mpr idle_nil)
  obtain ⟨hmoves, -⟩ := unheeded_change_transcripts_only (α := Nat) 3
  obtain ⟨⟨hnow, hpending, -⟩, -⟩ := hmoves newsPutIn hidle
  exact ⟨hidle, hnow, hpending, by decide +kernel, by decide +kernel⟩

end Timeline

end VenueLink.Exchange

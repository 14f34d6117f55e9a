import VenueLink.Proofs.Exchange.SingleOutcome

/-!
# Timelines without transcripts

The messages that an exchange keeps are there for whoever asks why it failed; nobody decides by
them. `bare` takes all transcripts away, and the cap with them. A step does the same to a bare
timeline as to the timeline itself, and its reply is the same but for transcripts, so that a run
with any cap is, apart from the transcripts, the run with the cap 0.

## Main results

* `act_bare`, `step_bare`, `move_bare`: what a step does to a bare timeline, and its reply.
* `written_bare`: the outcomes that a move writes for a bare timeline.
* `bare_dispatch_of_pass`: a message that all open exchanges pass on leaves nothing but
  transcripts behind.
* `Alike`: two timelines that are the same without their transcripts, and what they have in
  common.
-/

namespace VenueLink.Exchange

variable {α : Type}

/-- The exchange without the messages that it has seen. -/
def Entry.bare (e : Entry α) : Entry α :=
  { e with transcript := [] }

/-- The resolution without the messages that were seen. -/
def Resolution.bare : Resolution α → Resolution α
  | matched m => .matched { m with transcript := [] }
  | failed f => .failed { f with transcript := [] }

/-- The outcome without the messages that were seen. -/
def Outcome.bare (o : Outcome α) : Outcome α :=
  { o with resolution := o.resolution.bare }

/-- The correlator without transcripts; it may keep none either. -/
def Correlator.bare (c : Correlator α) : Correlator α :=
  { c with
    cap := 0
    entries := c.entries.map Entry.bare
    outcomes := c.outcomes.map Outcome.bare }

namespace Timeline

/-- The timeline without transcripts. -/
def bare (t : Timeline α) : Timeline α :=
  { t with correlator := t.correlator.bare }

/-- The step, where a resolution that comes from outside has no transcript. -/
def Step.bare : Step α → Step α
  | .resolve name r => .resolve name r.bare
  | s => s

/-- The reply without transcripts, and so without the messages to hand to the connection. -/
def Reply.bare : Reply α → Reply α
  | .dispatched resolved _ => .dispatched resolved []
  | .ended r => .ended r.bare
  | r => r

/-- The move, where a resolution that comes from outside has no transcript. -/
def Move.bare : Move α → Move α
  | .step s => .step s.bare
  | .expire id instant => .expire id instant

end Timeline

/-! ### Exchanges -/

/-- A bare resolution has no transcript to lose. -/
theorem Resolution.bare_bare (r : Resolution α) : r.bare.bare = r.bare := by
  cases r <;> rfl

/-- A bare outcome is that of the same exchange. -/
@[simp] theorem Outcome.id_bare (o : Outcome α) : o.bare.id = o.id := rfl

/-- It has come at the same instant. -/
@[simp] theorem Outcome.time_bare (o : Outcome α) : o.bare.time = o.time := rfl

/-- Outcomes that are alike are those of the same exchange. -/
theorem Outcome.id_eq {o o' : Outcome α} (h : o'.bare = o.bare) : o'.id = o.id := by
  rw [← id_bare, h, id_bare]

/-- They have come at the same instant. -/
theorem Outcome.time_eq {o o' : Outcome α} (h : o'.bare = o.bare) : o'.time = o.time := by
  rw [← time_bare, h, time_bare]

/-- A bare exchange notes nothing. -/
theorem Entry.record_bare (cap : Nat) (m : Json) (e : Entry α) :
    e.bare.record 0 m = (e.record cap m).bare := by
  have hbare : (e.record cap m).bare = e.bare := by
    rw [Entry.record]
    split
    · rfl
    · split <;> rfl
  rw [hbare]
  rfl

/-- Whether a message ends an exchange does not depend on its transcript. -/
theorem Entry.decide?_bare (e : Entry α) (m : Json) :
    e.bare.decide? m = (e.decide? m).map Resolution.bare := by
  have hverdict : e.bare.matcher.verdict m = e.matcher.verdict m := rfl
  rw [Entry.decide?, Entry.decide?, hverdict]
  cases e.matcher.verdict m <;> rfl

/-- Transcripts do not matter for what a message ends. -/
theorem sweep_bare (m : Json) (l : List (Entry α)) :
    sweep m (l.map Entry.bare) =
      ((sweep m l).1.map Entry.bare,
        (sweep m l).2.map (Prod.map Entry.bare Resolution.bare)) := by
  induction l with
  | nil => rfl
  | cons e rest ih =>
    have hstops : e.bare.matcher.stops m = e.matcher.stops m := rfl
    rw [List.map_cons, sweep, sweep, Entry.decide?_bare, ih, hstops]
    cases e.decide? m with
    | none => rfl
    | some r => cases e.matcher.stops m <;> rfl

namespace Correlator

/-! ### Correlators -/

/-- Numbers are no transcripts. -/
@[simp] theorem next_bare (c : Correlator α) : c.bare.next = c.next := rfl

/-- Nor is it one which exchanges are open. -/
@[simp] theorem pendingIds_bare (c : Correlator α) : c.bare.pendingIds = c.pendingIds := by
  simp [pendingIds, bare, Entry.bare, Function.comp_def]

/-- The outcomes of a bare correlator are bare. -/
theorem outcome?_bare (c : Correlator α) (id : Nat) :
    c.bare.outcome? id = (c.outcome? id).map Outcome.bare :=
  List.find?_map ..

/-- So are its open exchanges. -/
theorem entry_bare (c : Correlator α) (id : Nat) :
    c.bare.pending? id = (c.pending? id).map Entry.bare :=
  List.find?_map ..

/-- An outcome is assigned alike. -/
theorem assign_bare (now : Nat) (c : Correlator α) (id : Nat) (r : Resolution α) :
    (c.assign now id r).bare = c.bare.assign now id r.bare := by
  rw [assign, assign, outcome?_bare, Option.isSome_map]
  split
  · rfl
  · simp [bare, Outcome.bare]

/-- So are several. -/
theorem assignAll_bare (now : Nat) (ended : List (Entry α × Resolution α)) (c : Correlator α) :
    (c.assignAll now ended).bare =
      c.bare.assignAll now (ended.map (Prod.map Entry.bare Resolution.bare)) := by
  induction ended generalizing c with
  | nil => rfl
  | cons p rest ih =>
    refine (ih (c.assign now p.1.id p.2)).trans ?_
    rw [assign_bare]
    rfl

/-- An exchange is withdrawn alike. -/
theorem withdraw_bare (c : Correlator α) (id : Nat) :
    (c.withdraw id).bare = c.bare.withdraw id := by
  simp only [withdraw, bare, List.filter_map]
  rfl

/-- An exchange is registered alike. -/
theorem register_bare (now : Nat) (c : Correlator α) (m : Matcher α) (timeout : Nat) :
    (c.register now m timeout).bare = c.bare.register now m timeout := by
  simp [register, bare, Entry.bare, next]

/-- Whether messages are noted or not, the same exchanges stay open and the same ones end. -/
theorem sweep_record_bare (c : Correlator α) (m : Json) :
    sweep m (c.bare.entries.map (Entry.record c.bare.cap m)) =
      ((sweep m (c.entries.map (Entry.record c.cap m))).1.map Entry.bare,
        (c.decided m).map (Prod.map Entry.bare Resolution.bare)) := by
  have hrecord : c.bare.entries.map (Entry.record c.bare.cap m) =
      (c.entries.map (Entry.record c.cap m)).map Entry.bare := by
    simp only [bare, List.map_map, Function.comp_def, Entry.record_bare c.cap]
  rw [hrecord, sweep_bare]
  rfl

/-- A message ends the same exchanges. -/
theorem decided_bare (c : Correlator α) (m : Json) :
    c.bare.decided m = (c.decided m).map (Prod.map Entry.bare Resolution.bare) := by
  rw [decided, sweep_record_bare]

/-- It is dispatched alike. -/
theorem dispatch_bare (now : Nat) (c : Correlator α) (m : Json) :
    (c.dispatch now m).1.bare = (c.bare.dispatch now m).1 := by
  rw [dispatch, dispatch, sweep_record_bare]
  exact assignAll_bare now (c.decided m) _

/-- With the same answer. -/
theorem resolved_dispatch_bare (now : Nat) (c : Correlator α) (m : Json) :
    (c.bare.dispatch now m).2.resolved = (c.dispatch now m).2.resolved := by
  rw [dispatch, dispatch, sweep_record_bare]
  exact List.map_map

/-- An exchange is resolved alike. -/
theorem resolve_bare (now : Nat) (c : Correlator α) (id : Nat) (r : Resolution α) :
    (c.resolve now id r).1.bare = (c.bare.resolve now id r.bare).1 := by
  rw [resolve, resolve, assign_bare, withdraw_bare]

/-- With the same answer. -/
theorem resolve_bare_snd (now : Nat) (c : Correlator α) (id : Nat) (r : Resolution α) :
    (c.bare.resolve now id r.bare).2 = (c.resolve now id r).2 := by
  rw [resolve, resolve, outcome?_bare, Option.isNone_map]

/-- It fails alike, with the same answer. -/
theorem fail_bare (now : Nat) (c : Correlator α) (id : Nat) (cause : Cause) :
    c.bare.fail now id cause = ((c.fail now id cause).1.bare, (c.fail now id cause).2) := by
  rw [fail, fail, entry_bare]
  cases c.pending? id with
  | none => rfl
  | some e =>
    rw [assign_bare, withdraw_bare]
    rfl

/-- So do all. -/
theorem failAll_bare (now : Nat) (c : Correlator α) (cause : Cause) :
    c.bare.failAll now cause = ((c.failAll now cause).1.bare, (c.failAll now cause).2) := by
  rw [failAll, failAll, assignAll_bare]
  simp [bare, Entry.bare, Entry.failure, Resolution.bare, Function.comp_def]

/-- An exchange expires alike. -/
theorem expire_bare (now : Nat) (c : Correlator α) (id : Nat) :
    (c.expire now id).bare = c.bare.expire now id := by
  rw [expire, expire, fail_bare]

/-- The same exchanges are due. -/
theorem due_bare (limit : Nat) (c : Correlator α) :
    c.bare.due limit = (c.due limit).map Entry.bare := by
  have hsort : ∀ l : List (Entry α),
      (l.map Entry.bare).mergeSort (fun a b => a.deadline ≤ b.deadline) =
      (l.mergeSort fun a b => a.deadline ≤ b.deadline).map Entry.bare := by
    refine fun l => (List.map_mergeSort ?_).symm
    intro a _ b _
    rfl
  rw [due, due, bare, List.filter_map, hsort]
  rfl

/-- Time passes alike. -/
theorem elapse_bare (limit : Nat) (c : Correlator α) :
    (c.elapse limit).bare = c.bare.elapse limit := by
  rw [elapse, elapse, due_bare, List.foldl_map]
  generalize c.due limit = l
  induction l generalizing c with
  | nil => rfl
  | cons e rest ih =>
    rw [List.foldl_cons, ih, expire_bare]
    rfl

/-- A message that every open exchange passes on ends none of them. -/
theorem dispatch_of_pass {c : Correlator α} {m : Json}
    (h : ∀ e ∈ c.entries, e.matcher.verdict m = .pass) (now : Nat) :
    c.dispatch now m =
      ({ c with entries := c.entries.map (Entry.record c.cap m) }, ⟨[], []⟩) := by
  have hpass : ∀ l : List (Entry α), (∀ e ∈ l, e.matcher.verdict m = .pass) →
      sweep m l = (l, []) := by
    intro l hl
    induction l with
    | nil => rfl
    | cons e rest ih =>
      rw [sweep, Entry.decide?_eq_none_iff.mpr (hl e List.mem_cons_self),
        ih fun d hd => hl d (List.mem_cons_of_mem _ hd)]
  -- the message is noted before anybody decides on it, which changes no verdict
  have hrecorded : ∀ e ∈ c.entries.map (Entry.record c.cap m), e.matcher.verdict m = .pass := by
    intro e he
    obtain ⟨d, hd, rfl⟩ := List.mem_map.mp he
    rw [matcher_record]
    exact h d hd
  rw [dispatch, hpass _ hrecorded]
  rfl

/-- Such a message leaves nothing but transcripts behind. -/
theorem bare_dispatch_of_pass {c : Correlator α} {m : Json}
    (h : ∀ e ∈ c.entries, e.matcher.verdict m = .pass) (now : Nat) :
    (c.dispatch now m).1.bare = c.bare := by
  rw [dispatch_of_pass h]
  simp only [bare, List.map_map, Function.comp_def, ← Entry.record_bare c.cap m]
  rfl

end Correlator

namespace Timeline

open Correlator

/-! ### Steps -/

/-- Time passes alike with bare transcripts. -/
theorem elapse_bare (t : Timeline α) (instant : Nat) :
    (t.elapse instant).bare = t.bare.elapse instant := by
  rw [elapse, elapse, bare, Correlator.elapse_bare]
  rfl

/-- The end of an exchange is waited for alike. -/
theorem awaitEnd_bare (t : Timeline α) (id : Nat) :
    (t.awaitEnd id).bare = t.bare.awaitEnd id := by
  have hentry : t.bare.correlator.pending? id = (t.correlator.pending? id).map Entry.bare :=
    entry_bare t.correlator id
  rw [awaitEnd, awaitEnd, hentry]
  cases t.correlator.pending? id with
  | none => rfl
  | some e => exact elapse_bare t e.deadline

/-- Handles are no transcripts. -/
@[simp] theorem handles_bare (t : Timeline α) : t.bare.handles = t.handles := rfl

/-- Nor are names. -/
@[simp] theorem names_bare (t : Timeline α) : t.bare.names = t.names := rfl

/-- Nor is the clock. -/
@[simp] theorem now_bare (t : Timeline α) : t.bare.now = t.now := rfl

/-- The correlator of a bare timeline is bare. -/
@[simp] theorem correlator_bare (t : Timeline α) : t.bare.correlator = t.correlator.bare := rfl

/-- A step does to a bare timeline what it does to the timeline itself, and is answered in the
same way, transcripts apart. -/
theorem act_bare (t : Timeline α) (s : Step α) :
    (t.bare.act s.bare).1 = (t.act s).1.bare ∧
      (t.bare.act s.bare).2.bare = (t.act s).2.bare := by
  cases s with
  | register name matcher timeout =>
    refine ⟨?_, rfl⟩
    simp only [act, bare, register_bare]
    rfl
  | dispatch m =>
    constructor
    · change { t.bare with correlator := (t.correlator.bare.dispatch t.now m).1 } = _
      rw [← dispatch_bare]
      rfl
    · change Reply.dispatched ((t.correlator.bare.dispatch t.now m).2.resolved.map t.nameOf)
        [] = _
      rw [resolved_dispatch_bare]
      rfl
  | resolve name r =>
    simp only [act, Step.bare, handles_bare, now_bare, correlator_bare]
    cases t.handles.lookup name with
    | none => exact ⟨rfl, rfl⟩
    | some id =>
      dsimp only
      rw [← resolve_bare, resolve_bare_snd]
      exact ⟨rfl, rfl⟩
  | fail name cause =>
    simp only [act, Step.bare, names_bare, now_bare, correlator_bare]
    cases t.names.lookup name with
    | none => exact ⟨rfl, rfl⟩
    | some id =>
      dsimp only
      rw [fail_bare]
      exact ⟨rfl, rfl⟩
  | failAll cause =>
    simp only [act, Step.bare, now_bare, correlator_bare, failAll_bare]
    exact ⟨rfl, trivial⟩
  | advance duration => exact ⟨(elapse_bare t _).symm, rfl⟩
  | drop name => exact ⟨rfl, rfl⟩
  | wait name =>
    simp only [act, Step.bare, handles_bare]
    cases t.handles.lookup name with
    | none => exact ⟨rfl, rfl⟩
    | some id =>
      dsimp only
      rw [← awaitEnd_bare, correlator_bare, outcome?_bare]
      cases (t.awaitEnd id).correlator.outcome? id with
      | none => exact ⟨rfl, rfl⟩
      | some o => exact ⟨rfl, congrArg Reply.ended o.resolution.bare_bare⟩

/-- A step is taken alike. -/
theorem step_bare (t : Timeline α) (s : Step α) :
    (t.bare.step s.bare).1 = (t.step s).1.bare := by
  change (t.bare.act s.bare).1.elapse (t.bare.act s.bare).1.now =
    ((t.act s).1.elapse (t.act s).1.now).bare
  rw [(act_bare t s).1, elapse_bare]
  rfl

/-- So is a move. -/
theorem move_bare (t : Timeline α) (m : Move α) : t.bare.move m.bare = (t.move m).bare := by
  cases m with
  | step s => exact (act_bare t s).1
  | expire id instant =>
    simp only [move, Move.bare, correlator_bare, ← expire_bare]
    rfl

/-! ### What moves write -/

/-- A handle leads to the same exchange. -/
theorem heldExchange?_bare (t : Timeline α) (name : String) :
    t.bare.heldExchange? name = (t.heldExchange? name).map Entry.bare := by
  rw [heldExchange?, heldExchange?, handles_bare, correlator_bare]
  cases t.handles.lookup name with
  | none => rfl
  | some id => exact entry_bare _ id

/-- So does a name. -/
theorem namedExchange?_bare (t : Timeline α) (name : String) :
    t.bare.namedExchange? name = (t.namedExchange? name).map Entry.bare := by
  rw [namedExchange?, namedExchange?, names_bare, correlator_bare]
  cases t.names.lookup name with
  | none => rfl
  | some id => exact entry_bare _ id

/-- The same exchanges expire. -/
theorem expiries_bare (t : Timeline α) (limit : Nat) :
    t.bare.expiries limit = (t.expiries limit).map Outcome.bare := by
  rw [expiries, expiries, correlator_bare, due_bare, List.map_map, List.map_map]
  rfl

/-- Transcripts do not matter for which exchanges a move ends, when and how. -/
theorem written_bare (t : Timeline α) (m : Move α) :
    t.bare.written m.bare = (t.written m).map Outcome.bare := by
  cases m with
  | expire id instant =>
    simp only [written, Move.bare, correlator_bare, entry_bare]
    cases t.correlator.pending? id <;> rfl
  | step s =>
    cases s with
    | register name matcher timeout => rfl
    | drop name => rfl
    | advance duration => exact expiries_bare t _
    | dispatch m =>
      simp only [written, Move.bare, Step.bare, correlator_bare, decided_bare, List.map_map]
      rfl
    | resolve name r =>
      simp only [written, Move.bare, Step.bare, heldExchange?_bare]
      cases t.heldExchange? name <;> rfl
    | fail name cause =>
      simp only [written, Move.bare, Step.bare, namedExchange?_bare]
      cases t.namedExchange? name <;> rfl
    | failAll cause =>
      simp only [written, Move.bare, Step.bare, correlator_bare, Correlator.bare, List.map_map]
      rfl
    | wait name =>
      simp only [written, Move.bare, Step.bare, heldExchange?_bare]
      cases t.heldExchange? name with
      | none => rfl
      | some e => exact expiries_bare t _

/-! ### Two timelines -/

/-- The two timelines differ in their caps and transcripts only. -/
def Alike (t u : Timeline α) : Prop :=
  t.bare = u.bare

/-- At the start two timelines are alike, whatever their caps. -/
theorem alike_start (cap cap' : Nat) : (start cap : Timeline α).Alike (start cap') := rfl

section Alike

variable {t u : Timeline α} (h : t.Alike u)
include h

/-- Timelines that are alike differ in caps and transcripts only. -/
theorem Alike.bare_eq : t.bare = u.bare := h

/-- It does not matter which of two is the first. -/
theorem Alike.symm : u.Alike t := Eq.symm h

/-- It is the same instant in both. -/
theorem Alike.now_eq : t.now = u.now := by
  rw [← now_bare, h.bare_eq, now_bare]

/-- Their correlators differ in caps and transcripts only. -/
theorem Alike.correlator_eq : t.correlator.bare = u.correlator.bare :=
  congrArg Timeline.correlator h.bare_eq

/-- The same number is given out next. -/
theorem Alike.next_eq : t.correlator.next = u.correlator.next := by
  rw [← next_bare, h.correlator_eq, next_bare]

/-- The same exchanges are open. -/
theorem Alike.pendingIds_eq : t.correlator.pendingIds = u.correlator.pendingIds := by
  rw [← pendingIds_bare, h.correlator_eq, pendingIds_bare]

/-- The same exchanges have ended in the same way, transcripts apart. -/
theorem Alike.outcome?_eq (id : Nat) :
    (t.correlator.outcome? id).map Outcome.bare =
      (u.correlator.outcome? id).map Outcome.bare := by
  rw [← outcome?_bare, h.correlator_eq, outcome?_bare]

/-- Whatever step is taken next, both timelines give the same reply, transcripts apart. -/
theorem Alike.reply_eq (s : Step α) : (t.act s).2.bare = (u.act s).2.bare := by
  rw [← (act_bare t s).2, h.bare_eq, (act_bare u s).2]

/-- They stay alike when the same is done. -/
theorem Alike.act (s : Step α) : (t.act s).1.Alike (u.act s).1 := by
  rw [Alike, ← (act_bare t s).1, h.bare_eq, (act_bare u s).1]

/-- And in a step. -/
theorem Alike.step (s : Step α) : (t.step s).1.Alike (u.step s).1 := by
  rw [Alike, ← step_bare, h.bare_eq, step_bare]

/-- And in a move. -/
theorem Alike.move (m : Move α) : (t.move m).Alike (u.move m) := by
  rw [Alike, ← move_bare, h.bare_eq, move_bare]

/-- What a move writes in one of them, it writes in the other, with another transcript. -/
theorem Alike.exists_written {m : Move α} {o : Outcome α} (ho : o ∈ t.written m) :
    ∃ o' ∈ u.written m, o'.bare = o.bare := by
  have hbare : o.bare ∈ u.bare.written m.bare := by
    rw [← h.bare_eq, written_bare]
    exact List.mem_map_of_mem ho
  rw [written_bare] at hbare
  exact List.mem_map.mp hbare

/-- A step comes with the expiry of the same exchanges in both. -/
theorem Alike.movesOf_eq (s : Step α) : t.movesOf s = u.movesOf s := by
  have hdue : ∀ t : Timeline α,
      (t.correlator.due t.now).map (fun e => Move.expire e.id e.deadline) =
      (t.bare.correlator.due t.bare.now).map fun e => (.expire e.id e.deadline : Move α) := by
    intro t
    rw [correlator_bare, due_bare, List.map_map]
    rfl
  rw [movesOf, movesOf, hdue (t.act s).1, (h.act s).bare_eq, ← hdue (u.act s).1]

end Alike

/-- And after any moves. -/
theorem Alike.after {t u : Timeline α} (h : t.Alike u) (moves : List (Move α)) :
    (t.after moves).Alike (u.after moves) := by
  induction moves generalizing t u with
  | nil => exact h
  | cons m rest ih => exact ih (h.move m)

end Timeline

end VenueLink.Exchange

import VenueLink.Proofs.Exchange.Registry

/-!
# How far a message goes

A message is offered to the open exchanges in the order of registration. It goes as far as the
first exchange that halts it: one that accepts it and does not share it, or one that sees a
refusal in it. Of the exchanges that the message has got to, those that do not pass on it end;
all others stay open. Every open exchange notes the message, whether it has got there or not.

`Correlator.reach` is the position of that first exchange, and `takers` and `leftOpen` are the
two parts of the registry, said without going through it.

## Main results

* `sweep_eq`: going through the registry finds these two parts.
* `dispatch_fans_out`: what a message does to the registry and to the outcomes, and what is
  reported.
* `message_is_not_noted`: an exchange that may keep no messages does not note one.
-/

namespace VenueLink.Exchange

variable {α : Type}

/-- A message goes no further than this exchange: it accepts the message and does not share it,
or it refuses. -/
def Entry.Halts (m : Json) (e : Entry α) : Prop :=
  e.matcher.verdict m = .accept ∧ e.matcher.shared = false ∨ e.matcher.verdict m = .refuse

instance (m : Json) : DecidablePred (Entry.Halts (α := α) m) := fun e => by
  unfold Entry.Halts
  infer_instance

/-- How an exchange that does not pass on a message ends with it. -/
def Entry.ending (e : Entry α) (m : Json) : Resolution α :=
  if e.matcher.verdict m = .accept then .matched ⟨e.matcher.answer m, m, e.transcript⟩
  else .failed ⟨.rejected, e.transcript⟩

namespace Correlator

/-- How far a message goes: the position of the first exchange that halts it, or past the end if
there is none. -/
def reach (c : Correlator α) (m : Json) : Nat :=
  c.entries.findIdx (·.Halts m)

/-- The exchanges that a message gets to and that do not pass on it, in order. -/
def takers (c : Correlator α) (m : Json) : List (Entry α) :=
  (c.entries.take (c.reach m + 1)).filter (·.matcher.verdict m ≠ .pass)

/-- All other exchanges, in order. -/
def leftOpen (c : Correlator α) (m : Json) : List (Entry α) :=
  (c.entries.take (c.reach m + 1)).filter (·.matcher.verdict m = .pass) ++
    c.entries.drop (c.reach m + 1)

end Correlator

/-! ### Going through the registry -/

/-- A message that is noted changes nothing about whether it halts. -/
theorem halts_record {cap : Nat} {m : Json} {e : Entry α} :
    (e.record cap m).Halts m ↔ e.Halts m := by
  rw [Entry.Halts, Entry.Halts, matcher_record]

/-- A matcher stops a message exactly if the exchange halts it. -/
theorem stops_iff {m : Json} {e : Entry α} : e.matcher.stops m = true ↔ e.Halts m := by
  rw [Matcher.stops, Entry.Halts]
  cases e.matcher.verdict m <;> simp

/-- An exchange that lets a message pass does not halt it. -/
theorem not_halts_of_pass {m : Json} {e : Entry α} (h : e.matcher.verdict m = .pass) :
    ¬e.Halts m := by
  simp [Entry.Halts, h]

/-- One that does not let it pass ends with it. -/
theorem decide?_eq_ending {m : Json} {e : Entry α} (h : e.matcher.verdict m ≠ .pass) :
    e.decide? m = some (e.ending m) := by
  rw [Entry.decide?, Entry.ending]
  cases hv : e.matcher.verdict m with
  | accept => rfl
  | refuse => rfl
  | pass => exact absurd hv h

/-- Going through exchanges in order keeps those that pass up to the first that halts the
message, and all behind that one; the others end. -/
theorem sweep_eq (m : Json) (l : List (Entry α)) :
    sweep m l =
      ((l.take (l.findIdx (·.Halts m) + 1)).filter (·.matcher.verdict m = .pass) ++
          l.drop (l.findIdx (·.Halts m) + 1),
        ((l.take (l.findIdx (·.Halts m) + 1)).filter (·.matcher.verdict m ≠ .pass)).map
          fun e => (e, e.ending m)) := by
  induction l with
  | nil => rfl
  | cons e rest ih =>
    by_cases hpass : e.matcher.verdict m = .pass
    · have hhalts := not_halts_of_pass hpass
      have hnone : e.decide? m = none := Entry.decide?_eq_none_iff.mpr hpass
      rw [sweep, hnone, ih]
      simp [List.findIdx_cons, hhalts, hpass]
    · have hsome := decide?_eq_ending hpass
      by_cases hhalts : e.Halts m
      · have hstops := stops_iff.mpr hhalts
        rw [sweep, hsome]
        simp [List.findIdx_cons, hhalts, hstops, hpass]
      · have hstops : e.matcher.stops m = false := by
          rw [← Bool.not_eq_true, stops_iff]
          exact hhalts
        rw [sweep, hsome, ih]
        simp [List.findIdx_cons, hhalts, hstops, hpass]

namespace Correlator

/-- In the registry every exchange has noted the message before it decides on it. -/
theorem sweep_record (c : Correlator α) (m : Json) :
    sweep m (c.entries.map (Entry.record c.cap m)) =
      ((c.leftOpen m).map (Entry.record c.cap m),
        (c.takers m).map fun e => (e.record c.cap m, (e.record c.cap m).ending m)) := by
  have hreach : (c.entries.map (Entry.record c.cap m)).findIdx (·.Halts m) = c.reach m := by
    rw [List.findIdx_map, reach]
    simp only [Function.comp_def, halts_record]
  rw [sweep_eq, hreach, leftOpen, takers, ← List.map_take, ← List.map_drop, List.filter_map,
    List.filter_map, List.map_append, List.map_map]
  simp only [Function.comp_def, matcher_record]

/-- The exchanges that a message ends are its takers. -/
theorem decided_eq (c : Correlator α) (m : Json) :
    c.decided m = (c.takers m).map
      fun e => (e.record c.cap m, (e.record c.cap m).ending m) := by
  rw [decided, sweep_record]

/-- Writing outcomes leaves the registry as it is. -/
theorem entries_assignAll (now : Nat) (ended : List (Entry α × Resolution α))
    (c : Correlator α) : (c.assignAll now ended).entries = c.entries := by
  induction ended generalizing c with
  | nil => rfl
  | cons p rest ih =>
    have hfirst : (c.assign now p.1.id p.2).entries = c.entries := by
      rw [assign]
      split <;> rfl
    exact (ih _).trans hfirst

/-- The others stay open, and have noted it if it came to them. -/
theorem entries_dispatch (c : Correlator α) (now : Nat) (m : Json) :
    (c.dispatch now m).1.entries = (c.leftOpen m).map (Entry.record c.cap m) := by
  rw [dispatch, sweep_record]
  exact entries_assignAll now _ _

/-- The answer names the takers. -/
theorem resolved_dispatch (c : Correlator α) (now : Nat) (m : Json) :
    (c.dispatch now m).2.resolved = (c.takers m).map Entry.id := by
  rw [dispatch, sweep_record]
  simp

/-- What a message hands to the connection are the messages that those exchanges have noted
which it answers and which prune. -/
theorem pruned_dispatch (c : Correlator α) (now : Nat) (m : Json) :
    (c.dispatch now m).2.pruned =
      ((c.takers m).filter fun e => e.matcher.verdict m = .accept && e.matcher.prunes).flatMap
        fun e => (e.record c.cap m).transcript := by
  rw [dispatch, sweep_record]
  dsimp only
  rw [List.flatMap_map]
  induction c.takers m with
  | nil => rfl
  | cons e rest ih =>
    rw [List.flatMap_cons, ih, Entry.pruned, matcher_record, List.filter_cons, Bool.and_comm]
    split <;> simp

/-- The exchanges of `takers` end with the message, and no others. -/
theorem outcome?_dispatch_of_mem {c : Correlator α} (hc : c.Sound) (now : Nat) (m : Json)
    {e : Entry α} (he : e ∈ c.takers m) :
    (c.dispatch now m).1.outcome? e.id = some ⟨e.id, now, (e.record c.cap m).ending m⟩ := by
  have hmem : (⟨e.id, now, (e.record c.cap m).ending m⟩ : Outcome α) ∈
      (c.decided m).map fun p => ⟨p.1.id, now, p.2⟩ := by
    rw [decided_eq, List.map_map]
    refine List.mem_map.mpr ⟨e, he, ?_⟩
    simp
  exact (ends_dispatch hc now m).outcome?_of_mem hc hmem

/-- No other outcome is touched. -/
theorem outcome?_dispatch_of_not_mem {c : Correlator α} (hc : c.Sound) (now : Nat) (m : Json)
    {id : Nat} (hid : id ∉ (c.takers m).map Entry.id) :
    (c.dispatch now m).1.outcome? id = c.outcome? id := by
  have hnew : (((c.decided m).map fun p => (⟨p.1.id, now, p.2⟩ : Outcome α)).find?
      (·.id == id)) = none := by
    rw [List.find?_eq_none]
    intro o ho heq
    obtain ⟨p, hp, rfl⟩ := List.mem_map.mp ho
    rw [decided_eq] at hp
    obtain ⟨e, he, rfl⟩ := List.mem_map.mp hp
    have heq : e.id = id := by simpa using heq
    exact hid (heq ▸ List.mem_map_of_mem he)
  rw [outcome?, (ends_dispatch hc now m).outcomes_eq, List.find?_append, hnew, Option.or_none,
    outcome?]

end Correlator

/-! ### What every open exchange notes -/

/-- A message is noted behind those that an exchange has seen; when it may keep no more, the
earliest is dropped. -/
theorem transcript_record {cap : Nat} (m : Json) (e : Entry α) :
    (e.record cap m).transcript =
      if cap = 0 then e.transcript
      else (if e.transcript.length < cap then e.transcript else e.transcript.tail) ++ [m] := by
  rw [Entry.record]
  split
  · rfl
  · split <;> rfl

/-- Noting a message changes nothing else. -/
theorem record_eq (cap : Nat) (m : Json) (e : Entry α) :
    e.record cap m = { e with transcript := (e.record cap m).transcript } := by
  rw [Entry.record]
  split
  · rfl
  · split <;> rfl

/-- **A message fans out.** The exchanges that a message ends are those that do not pass on it
among the ones up to the first that halts it, in order: one that it answers gets what was read
from it, with the message and what the exchange has seen; one that it refuses gets that. All
others stay open, in order, and keep what outcome they have. Every open exchange has noted the
message, whether it ends or not, but one that may keep `cap` messages only keeps the last ones,
and none for `cap = 0`. What is handed to the connection is what was seen by those exchanges
that were answered and prune. -/
theorem Correlator.dispatch_fans_out {c : Correlator α} (hc : c.Sound) (now : Nat) (m : Json) :
    let c' := (c.dispatch now m).1
    let report := (c.dispatch now m).2
    let seen := fun e : Entry α => (e.record c.cap m).transcript
    report.resolved = (c.takers m).map Entry.id ∧
    (∀ e ∈ c.takers m, e.matcher.verdict m = .accept →
      c'.outcome? e.id = some ⟨e.id, now, .matched ⟨e.matcher.answer m, m, seen e⟩⟩) ∧
    (∀ e ∈ c.takers m, e.matcher.verdict m = .refuse →
      c'.outcome? e.id = some ⟨e.id, now, .failed ⟨.rejected, seen e⟩⟩) ∧
    (∀ id ∉ (c.takers m).map Entry.id, c'.outcome? id = c.outcome? id) ∧
    c'.entries = (c.leftOpen m).map (fun e => { e with transcript := seen e }) ∧
    (∀ e ∈ c.entries, seen e = if c.cap = 0 then e.transcript
      else (if e.transcript.length < c.cap then e.transcript else e.transcript.tail) ++ [m]) ∧
    report.pruned = ((c.takers m).filter fun e =>
      e.matcher.verdict m = .accept && e.matcher.prunes).flatMap seen := by
  intro c' report seen
  have hending : ∀ e ∈ c.takers m,
      c'.outcome? e.id = some ⟨e.id, now, (e.record c.cap m).ending m⟩ :=
    fun e he => outcome?_dispatch_of_mem hc now m he
  refine ⟨c.resolved_dispatch now m, ?_, ?_, ?_, ?_, ?_, c.pruned_dispatch now m⟩
  · intro e he hv
    rw [hending e he, Entry.ending, matcher_record, if_pos hv]
  · intro e he hv
    have hne : e.matcher.verdict m ≠ .accept := by simp [hv]
    rw [hending e he, Entry.ending, matcher_record, if_neg hne]
  · intro id hid
    exact outcome?_dispatch_of_not_mem hc now m hid
  · rw [c.entries_dispatch now m]
    exact List.map_congr_left fun e _ => record_eq c.cap m e
  · intro e _
    exact transcript_record m e

/-! ### Two registries -/

/-- An exchange that passes on everything. -/
def heedless : Matcher Nat where
  accepts _ := false
  answer _ := 0

/-- The text "order". -/
def isOrder (m : Json) : Bool :=
  m = .string "order"

/-- The first passes on everything, the second accepts an order and shares it, the third refuses
it, and the fourth would accept it. -/
def fourMatchers : List (Matcher Nat) :=
  [heedless, { accepts := isOrder, answer := fun _ => 1, shared := true, prunes := true },
    { heedless with rejects := isOrder }, { accepts := isOrder, answer := fun _ => 3 }]

/-- Four exchanges that keep one message each, and have seen the text "news". -/
def mixed : Correlator Nat :=
  let c := fourMatchers.foldl (fun c m => Correlator.register 0 c m 100) { cap := 1 }
  (c.dispatch 0 (.string "news")).1

/-- The example is in order. -/
theorem sound_mixed : mixed.Sound := by
  have hregistered : ∀ (matchers : List (Matcher Nat)) (c : Correlator Nat), c.Sound →
      (matchers.foldl (fun c m => Correlator.register 0 c m 100) c).Sound := by
    intro matchers
    induction matchers with
    | nil => exact fun _ hc => hc
    | cons m rest ih => exact fun c hc => ih _ (hc.register 0 m 100)
  have hsound := hregistered fourMatchers _ (Correlator.sound_start 1)
  exact hsound.of_ends (Correlator.ends_dispatch hsound 0 _)

/-- The order is shared by the second exchange and refused by the third, so the fourth does not
get it, but notes it like the first. -/
theorem order_fans_out :
    mixed.Sound ∧
    (mixed.dispatch 5 (.string "order")).2.resolved = [1, 2] ∧
    (mixed.dispatch 5 (.string "order")).1.outcome? 1 =
      some ⟨1, 5, .matched ⟨1, .string "order", [.string "order"]⟩⟩ ∧
    (mixed.dispatch 5 (.string "order")).1.outcome? 2 =
      some ⟨2, 5, .failed ⟨.rejected, [.string "order"]⟩⟩ ∧
    (mixed.dispatch 5 (.string "order")).1.entries.map (fun e => (e.id, e.transcript)) =
      [(0, [.string "order"]), (3, [.string "order"])] ∧
    (mixed.dispatch 5 (.string "order")).2.pruned = [.string "order"] := by
  obtain ⟨hresolved, hmatched, hrefused, -, hentries, -, hpruned⟩ :=
    Correlator.dispatch_fans_out sound_mixed 5 (.string "order")
  have htakers : (mixed.takers (.string "order")).map Entry.id = [1, 2] := by decide
  refine ⟨sound_mixed, hresolved.trans htakers, ?_, ?_, ?_, ?_⟩
  · exact hmatched _ List.mem_cons_self rfl
  · exact hrefused _ (List.mem_cons_of_mem _ List.mem_cons_self) rfl
  · rw [hentries]
    decide
  · rw [hpruned]
    decide

/-- An exchange that may keep no messages stays open without having noted one. -/
theorem message_is_not_noted :
    let c := ({ cap := 0 } : Correlator Nat).register 0 heedless 4000
    let m := Json.object [("id", .integer 3)]
    c.pendingIds = [0] ∧ (c.dispatch 0 m).1.pendingIds = [0] ∧
      ∀ e ∈ (c.dispatch 0 m).1.entries, m ∉ e.transcript := by
  decide

end VenueLink.Exchange

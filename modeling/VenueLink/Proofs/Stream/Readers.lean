import VenueLink.Proofs.Document.Compact
import VenueLink.Proofs.Stream.Mark

/-!
# Readers at work together

However the steps of readers, of newer connections and of those who send fall, the readers keep
apart from one another, the mark is that of the latest connection unless it has been overtaken,
and a message goes to the connection that was the latest one when its sender took hold of the
writer.

What is known at any time of a run is kept in three invariants, with one lemma for each kind of
step: `Streams.Agrees` for the readers, `Streams.MarkedRight` for the mark and
`Streams.SentRight` for messages.

## Main results

* `Streams.known_run`: the invariants hold along every run.
* `Streams.readers_keep_apart`: the signals of each connection, the mark of the stream and the
  way of what is sent.
* `Streams.overtaken_mark_is_cleared`: a stream that is not open although its latest reader is
  at work.
* `payload?_nested`: a frame that is JSON, but nested too deep, is skipped like one that is not
  JSON.
-/

namespace VenueLink

/-- A frame whose text is nested too deep is no message. -/
theorem payload?_nested {n : Nat} (h : Document.maxDepth ≤ n) :
    (Incoming.text (Json.compact (Document.nested n))).payload? = none := by
  obtain ⟨f, hf⟩ := Document.readText_nested h
  rw [Incoming.payload?, hf]
  rfl

namespace Streams

/-! ### Messages -/

/-- Somebody who sends the message has taken hold of the writer when the connection was the
latest one. -/
def HeldIn (d : Dispatched) : List Step → Prop :=
  Came (.hold d.message) fun before => (dialled before).getLast? = some d.generation

/-- And has found the stream open then. -/
def AllowedIn (d : Dispatched) : List Step → Prop :=
  Came (.look d) fun before => HeldIn d before ∧ (run {} before).isOpen = true

/-- And has handed the message over to the writer, which had not given up. -/
def SentIn (d : Dispatched) : List Step → Prop :=
  Came (.hand d) fun before => AllowedIn d before ∧ d.generation ∉ (run {} before).stopped

/-- What is known of messages after some steps. -/
structure SentRight (s : Streams) (steps : List Step) : Prop where
  held : ∀ d ∈ s.held, HeldIn d steps
  allowed : ∀ d ∈ s.allowed, AllowedIn d steps
  sent : ∀ d ∈ s.sent, SentIn d steps

/-- Nothing is under way at the start. -/
theorem sentRight_nil : SentRight {} [] where
  held _ hd := absurd hd List.not_mem_nil
  allowed _ hd := absurd hd List.not_mem_nil
  sent _ hd := absurd hd List.not_mem_nil

section Sent

variable {s s' : Streams} {steps : List Step}

/-- A step in which nothing happens to messages, or what was known of them is all that is left.
-/
theorem SentRight.concat (h : s.SentRight steps) (t : Step) (hheld : s'.held ⊆ s.held)
    (hallowed : s'.allowed ⊆ s.allowed) (hsent : s'.sent ⊆ s.sent) :
    s'.SentRight (steps ++ [t]) where
  held d hd := (h.held d (hheld hd)).concat t
  allowed d hd := (h.allowed d (hallowed hd)).concat t
  sent d hd := (h.sent d (hsent hd)).concat t

/-- A step in which nothing happens to messages. -/
theorem SentRight.keep (h : s.SentRight steps) (t : Step) (hheld : s'.held = s.held)
    (hallowed : s'.allowed = s.allowed) (hsent : s'.sent = s.sent) :
    s'.SentRight (steps ++ [t]) :=
  h.concat t (hheld ▸ List.Subset.refl _) (hallowed ▸ List.Subset.refl _)
    (hsent ▸ List.Subset.refl _)

/-- **Steps keep what is known of messages.** -/
theorem SentRight.step (h : s.SentRight steps) (ha : s.Agrees steps) (hs : run {} steps = s)
    (t : Step) : (s.step t).SentRight (steps ++ [t]) := by
  have hsame : s.SentRight (steps ++ [t]) := h.keep t rfl rfl rfl
  cases t with
  | dial g => exact h.keep _ rfl rfl rfl
  | proceed =>
    rw [Streams.step, Streams.proceed]
    split <;> exact h.keep _ rfl rfl rfl
  | start g => exact h.keep _ rfl rfl rfl
  | take g i =>
    rw [Streams.step, Streams.take]
    split
    · split <;> exact h.keep _ rfl rfl rfl
    · exact hsame
  | leave g =>
    rw [Streams.step, Streams.leave]
    split <;> exact h.keep _ rfl rfl rfl
  | hold message =>
    rw [Streams.step, Streams.hold]
    cases hwriter : s.writer with
    | none => exact hsame
    | some g =>
      refine { hsame with held := fun d hd => ?_ }
      rcases List.mem_cons.mp hd with rfl | hd
      · exact came_concat.mpr (.inr ⟨rfl, ha.writer.symm.trans hwriter⟩)
      · exact hsame.held d hd
  | look d =>
    rw [Streams.step, Streams.look]
    split
    next hd =>
      by_cases hopen : s.isOpen = true
      · rw [if_pos hopen]
        refine ⟨fun d' hd' => hsame.held d' (List.mem_of_mem_erase hd'), fun d' hd' => ?_,
          hsame.sent⟩
        rcases List.mem_cons.mp hd' with rfl | hd'
        · exact came_concat.mpr (.inr ⟨rfl, h.held _ hd, hs ▸ hopen⟩)
        · exact hsame.allowed d' hd'
      · rw [if_neg hopen]
        exact h.concat _ List.erase_subset (List.Subset.refl _) (List.Subset.refl _)
    next => exact hsame
  | hand d =>
    rw [Streams.step]
    split
    next hd =>
      dsimp only
      rw [Streams.hand]
      split
      next hstopped =>
        exact h.concat _ (List.Subset.refl _) List.erase_subset (List.Subset.refl _)
      next hgoes =>
        refine ⟨hsame.held, fun d' hd' => hsame.allowed d' (List.mem_of_mem_erase hd'),
          fun d' hd' => ?_⟩
        rcases List.mem_append.mp hd' with hd' | hd'
        · exact hsame.sent d' hd'
        · obtain rfl := List.mem_singleton.mp hd'
          exact came_concat.mpr (.inr ⟨rfl, h.allowed _ hd, hs ▸ hgoes⟩)
    next => exact hsame
  | stop g => exact h.keep _ rfl rfl rfl

end Sent

/-! ### Runs -/

/-- What is known at any time of a run. -/
theorem known_run {steps : List Step} (hturn : InTurn {} steps)
    (hfresh : (dialled steps).Nodup) :
    (run {} steps).Agrees steps ∧ (run {} steps).MarkedRight steps ∧
      (run {} steps).SentRight steps := by
  induction steps using List.reverseRecOn with
  | nil => exact ⟨agrees_nil, markedRight_nil, sentRight_nil⟩
  | append_singleton steps t ih =>
    obtain ⟨hturn, hadmits⟩ := inTurn_concat.mp hturn
    have hbefore : (dialled steps).Nodup := by
      rw [dialled_concat] at hfresh
      exact (List.nodup_append.mp hfresh).1
    obtain ⟨hagrees, hmark, hsent⟩ := ih hturn hbefore
    rw [run_concat]
    exact ⟨hagrees.step hadmits hfresh, hmark.step hagrees rfl hadmits hfresh,
      hsent.step hagrees rfl t⟩

/-- A message that is sent with nothing in between goes over the latest connection, if the
stream is open and the writer of that has not given up. -/
theorem send_eq_ok_iff {s s' : Streams} {message : Json} :
    s.send message = .ok s' ↔ s.isOpen = true ∧
      ∃ g, s.writer = some g ∧ g ∉ s.stopped ∧
        s' = { s with sent := s.sent ++ [⟨g, message⟩] } := by
  rw [send, hold, look]
  cases hwriter : s.writer with
  | none => simp [bind, Except.bind]
  | some g =>
    by_cases hopen : s.isOpen = true
    · by_cases hstopped : g ∈ s.stopped
      · simp [bind, Except.bind, hopen, hand, hstopped]
      · simp [bind, Except.bind, hopen, hand, hstopped, hwriter, eq_comm]
    · simp [bind, Except.bind, hopen]

/-- **Connections side by side.** Let connections be made one after the other, each of another
generation, while the readers of all that have been made so far are at work and messages are
sent.

* What is told of a connection, together with its end if that is still to be told, is exactly
  that it is open, a message for each frame that is JSON, in the order of the frames, and at its
  end that it is closed; nothing before its reader has started, and nothing after the end.
* Once the latest connection has set the mark, the stream is open if and only if the reader of
  that one is at work, or has not cleared the mark yet, and no reader of another connection has
  overtaken it. Before the first one the stream is not open.
* A message that has been sent has gone to the connection that was the latest one when its
  sender took hold of the writer, and the stream was open when its sender looked. If nothing
  comes in between, that is the latest connection at this time. -/
theorem readers_keep_apart {steps : List Step} (hturn : InTurn {} steps)
    (hfresh : (dialled steps).Nodup) :
    let s := run {} steps
    (∀ g, s.signals.filter (·.generation = g) ++ s.untold g =
      if .start g ∈ steps then tale g (taken g steps) else []) ∧
      (∀ g, s.Marked g →
        (s.isOpen = true ↔ (Lasting (taken g steps) ∨ s.Lingers g) ∧ ¬Overtaken g steps)) ∧
      (dialled steps = [] → s.isOpen = false) ∧
      (∀ d ∈ s.sent, SentIn d steps) ∧
      ∀ message s', s.send message = .ok s' ↔ s.isOpen = true ∧
        ∃ g, (dialled steps).getLast? = some g ∧ g ∉ s.stopped ∧
          s' = { s with sent := s.sent ++ [⟨g, message⟩] } := by
  intro s
  obtain ⟨hagrees, hmark, hsent⟩ := known_run hturn hfresh
  refine ⟨hagrees.signals, fun g hmarked => ?_, fun hnil => ?_, hsent.sent,
    fun message s' => ?_⟩
  · rw [hmark.isOpen g hmarked, hagrees.not_past_iff]
  · exact hmark.closed (by rw [hagrees.writer, hnil, List.getLast?_nil])
  · rw [send_eq_ok_iff, hagrees.writer]

/-- A connection takes the place of another one, which comes to its end between the steps of the
newer one. A message is sent over each. -/
def replacing : List Step :=
  [.dial 1, .proceed, .proceed, .proceed, .start 1, .take 1 (.text "1"), .hold (.integer 1),
    .dial 2, .look ⟨1, .integer 1⟩, .proceed, .take 1 (.close none), .leave 1, .proceed,
    .hand ⟨1, .integer 1⟩, .leave 1, .proceed, .start 2, .take 2 (.text "EURUSD"),
    .take 2 (.text "2"), .hold (.integer 2), .look ⟨2, .integer 2⟩, .hand ⟨2, .integer 2⟩]

/-- The end of the earlier connection is told, and the stream is open. The message of the sender
that had taken hold of the earlier writer has gone there. -/
theorem replaced_connection_ends :
    let s := run {} replacing
    s.Marked 2 ∧ ¬Overtaken 2 replacing ∧ s.isOpen = true ∧
      s.signals.filter (·.generation = 1) =
        [.opened 1, .message 1 (.integer 1), .closed 1 "closed by venue"] ∧
      s.signals.filter (·.generation = 2) = [.opened 2, .message 2 (.integer 2)] ∧
      s.sent = [⟨1, .integer 1⟩, ⟨2, .integer 2⟩] ∧ SentIn ⟨1, .integer 1⟩ replacing := by
  intro s
  obtain ⟨hsignals, hopen, -, hsent, -⟩ :=
    @readers_keep_apart replacing (by decide +kernel) (by decide)
  have hmarked : s.Marked 2 := by
    refine ⟨by decide +kernel, by decide +kernel, by decide +kernel⟩
  have hisOpen : s.isOpen = true := by decide +kernel
  have hhanded : s.sent = [⟨1, .integer 1⟩, ⟨2, .integer 2⟩] := by decide +kernel
  have huntold : s.untold 1 = [] ∧ s.untold 2 = [] := by decide +kernel
  refine ⟨hmarked, ((hopen 2 hmarked).mp hisOpen).2, hisOpen, ?_, ?_, hhanded, hsent _ ?_⟩
  · rw [← List.append_nil (List.filter _ _), ← huntold.1]
    exact (hsignals 1).trans (by decide +kernel)
  · rw [← List.append_nil (List.filter _ _), ← huntold.2]
    exact (hsignals 2).trans (by decide +kernel)
  · change _ ∈ s.sent
    rw [hhanded]
    exact List.mem_cons_self

/-- The reader of a connection has come to its end and looked which generation counts; then the
next connection is made and its reader starts, before the first reader clears the mark. -/
def overtaking : List Step :=
  [.dial 1, .proceed, .proceed, .proceed, .start 1, .take 1 (.close none), .leave 1, .dial 2,
    .proceed, .proceed, .proceed, .start 2, .leave 1, .leave 1]

/-- The mark of the latest connection is cleared though its reader is at work, and nothing is
sent over it. -/
theorem overtaken_mark_is_cleared :
    let s := run {} overtaking
    (InTurn {} overtaking ∧ (dialled overtaking).Nodup) ∧
      s.latest = some 2 ∧ s.underway = none ∧ s.post? 2 = some .reading ∧
      s.signals = [.opened 1, .opened 2, .closed 1 "closed by venue"] ∧ s.isOpen = false ∧
      (s.send .null).toOption = none := by
  decide +kernel

end Streams

end VenueLink

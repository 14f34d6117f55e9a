import VenueLink.Proofs.Switchboard.Run

/-!
# Plays

In a run the signals that have been taken in are handled all at once. Here the things that
happen to a switchboard are moves, in any order, and a move handles one signal at most: the next
one of those that the wire has told, or one from elsewhere. What has been heard in a play is
thus a list of signals, in the order in which they were handled.

## Main results

* `handle_prepend`: handling a signal looks at no other signal.
* `drain_eq_play`: handling all signals is handling them one by one.
* `playsTo_run`: the states of `Switchboard.run` are among those that plays lead to, and no
  signal from elsewhere is handled unless a step of the run says so.
* `orderly_play`: a play keeps the switchboard in order.
-/

namespace VenueLink.Switchboard

open Exchange

variable {α ρ : Type}

/-- A step that neither handles signals nor lets time pass. -/
def Step.Plain : Step α ρ → Prop
  | .pump => False
  | .signal _ => False
  | .advance _ => False
  | _ => True

/-- One thing that happens to a switchboard. -/
inductive Move (α ρ : Type) where
  /-- Something is done from outside. -/
  | act (step : Step α ρ) (plain : step.Plain)
  /-- What is ready first is done, or the exchanges whose deadline has come are; signals that
  are to be handled are only picked up. -/
  | next
  /-- The clock goes to an instant, unless it is past it, and timers run out. -/
  | tick (instant : Nat)
  /-- The signal that was taken in first is handled. -/
  | deliver
  /-- All signals have been handled. -/
  | hush
  /-- A signal is handled that the wire has not told. -/
  | intrude (signal : Signal)

/-- The move handles no signal from elsewhere. -/
def Move.Own : Move α ρ → Prop
  | .intrude _ => False
  | _ => True

/-- Make a move. -/
def move (s : Switchboard α ρ) : Move α ρ → Switchboard α ρ
  | .act step _ => (s.act step).1
  | .next =>
    match s.ready with
    | .signals :: rest => { s with ready := rest }
    | _ => s.occur .next
  | .tick instant => s.occur (.tick instant)
  | .deliver =>
    match s.inbox with
    | signal :: rest => { s with inbox := rest }.handle signal
    | [] => s
  | .hush => s.occur .hush
  | .intrude signal => s.handle signal

/-- Make several moves. -/
def play (s : Switchboard α ρ) (moves : List (Move α ρ)) : Switchboard α ρ :=
  moves.foldl move s

/-- The signal that a move handles, if any. -/
def heard (s : Switchboard α ρ) : Move α ρ → List Signal
  | .deliver => s.inbox.head?.toList
  | .intrude signal => [signal]
  | _ => []

/-- The signals that several moves handle, in order. -/
def heardIn (s : Switchboard α ρ) : List (Move α ρ) → List Signal
  | [] => []
  | m :: rest => s.heard m ++ (s.move m).heardIn rest

/-- A play goes on from where its first part leads. -/
theorem play_append (s : Switchboard α ρ) (xs ys : List (Move α ρ)) :
    s.play (xs ++ ys) = (s.play xs).play ys :=
  List.foldl_append

/-- What is heard in it is heard in one part or the other. -/
theorem heardIn_append (s : Switchboard α ρ) (xs ys : List (Move α ρ)) :
    s.heardIn (xs ++ ys) = s.heardIn xs ++ (s.play xs).heardIn ys := by
  induction xs generalizing s with
  | nil => rfl
  | cons m rest ih =>
    rw [List.cons_append, heardIn, ih, heardIn, List.append_assoc]
    rfl

/-- One more move. -/
theorem play_concat (s : Switchboard α ρ) (moves : List (Move α ρ)) (m : Move α ρ) :
    s.play (moves ++ [m]) = (s.play moves).move m :=
  s.play_append moves [m]

/-- What is heard in one more move. -/
theorem heardIn_concat (s : Switchboard α ρ) (moves : List (Move α ρ)) (m : Move α ρ) :
    s.heardIn (moves ++ [m]) = s.heardIn moves ++ (s.play moves).heard m := by
  rw [heardIn_append, heardIn, heardIn, List.append_nil]

/-! ### Order -/

/-- A plain step is done by itself. -/
theorem occur_act_of_plain (s : Switchboard α ρ) {step : Step α ρ} (h : step.Plain) :
    s.occur (.act step) = (s.act step).1 := by
  cases step with
  | advance duration => exact absurd h id
  | _ => rfl

/-- A move keeps the switchboard in order and undoes nothing. -/
theorem keeps_move (s : Switchboard α ρ) (m : Move α ρ) :
    ∃ sent turns, Keeps sent turns s (s.move m) := by
  cases m with
  | act step plain =>
    have hkeeps := s.keeps_occur (.act step)
    rw [s.occur_act_of_plain plain] at hkeeps
    exact ⟨_, _, hkeeps⟩
  | next =>
    rw [move]
    split
    · next rest hr => exact ⟨[], [], keeps_pop hr fun _ heq => by cases heq⟩
    · exact ⟨_, _, s.keeps_occur .next⟩
  | tick instant => exact ⟨_, _, s.keeps_occur (.tick instant)⟩
  | deliver =>
    rw [move]
    split
    · next signal rest _ =>
        exact ⟨_, _, (s.aside_inbox rest).keeps.trans (keeps_handle _ signal)⟩
    · exact ⟨_, _, .refl s⟩
  | hush => exact ⟨_, _, s.keeps_occur .hush⟩
  | intrude signal => exact ⟨_, _, s.keeps_handle signal⟩

/-- A move keeps order. -/
theorem orderly_move {s : Switchboard α ρ} (h : s.Orderly) (m : Move α ρ) :
    (s.move m).Orderly := by
  obtain ⟨sent, turns, hkeeps⟩ := s.keeps_move m
  exact (hkeeps h).1

/-- So does a play. -/
theorem orderly_play {s : Switchboard α ρ} (h : s.Orderly) (moves : List (Move α ρ)) :
    (s.play moves).Orderly := by
  induction moves generalizing s with
  | nil => exact h
  | cons m rest ih => exact ih (orderly_move h m)

/-- An outcome is never changed by a move. -/
theorem outcome?_move_mono {s : Switchboard α ρ} (h : s.Orderly) (m : Move α ρ) {ex : Nat}
    {o : Outcome α} (ho : s.correlator.outcome? ex = some o) :
    (s.move m).correlator.outcome? ex = some o := by
  obtain ⟨sent, turns, hkeeps⟩ := s.keeps_move m
  exact (hkeeps h).2.outcome?_mono ho

/-- An exchange that is open after a move was open before, unless it is new. -/
theorem pending_of_move {s : Switchboard α ρ} (h : s.Orderly) (m : Move α ρ) {ex : Nat}
    (hlt : ex < s.correlator.next) (hp : ex ∈ (s.move m).correlator.pendingIds) :
    ex ∈ s.correlator.pendingIds := by
  refine h.sound.mem_pending_iff.mpr ⟨hlt, ?_⟩
  cases ho : s.correlator.outcome? ex with
  | none => rfl
  | some o =>
    have hlast := outcome?_move_mono h m ho
    rw [(orderly_move h m).sound.outcome?_of_pending hp] at hlast
    cases hlast

/-! ### Signals one by one -/

/-- The switchboard with signals that were taken in before all others. -/
def prepend (signals : List Signal) (s : Switchboard α ρ) : Switchboard α ρ :=
  { s with inbox := signals ++ s.inbox }

section Prepend

variable (signals : List Signal)

/-- Signals in front are no matter to what becomes ready. -/
theorem enqueue_prepend (s : Switchboard α ρ) (t : Task) :
    (s.prepend signals).enqueue t = (s.enqueue t).prepend signals := by
  rw [enqueue, enqueue, prepend]
  dsimp only
  split <;> rfl

/-- Nor to those that are taken in behind them. -/
theorem hear_prepend (s : Switchboard α ρ) (more : List Signal) :
    (s.prepend signals).hear more = (s.hear more).prepend signals := by
  rw [hear, hear]
  split
  · rfl
  · have hinbox : { s.prepend signals with inbox := (s.prepend signals).inbox ++ more } =
        ({ s with inbox := s.inbox ++ more } : Switchboard α ρ).prepend signals := by
      simp [prepend]
    rw [hinbox]
    dsimp only
    have hmanual :
        (({ s with inbox := s.inbox ++ more } : Switchboard α ρ).prepend signals).manual =
        s.manual := rfl
    rw [hmanual]
    split
    · rfl
    · exact enqueue_prepend signals _ .signals

/-- Nor to callers that are woken. -/
theorem wakeWhere_prepend (s : Switchboard α ρ) (p : Caller α ρ → Bool) :
    (s.prepend signals).wakeWhere p = (s.wakeWhere p).prepend signals := by
  have hfold : ∀ (l : List (Caller α ρ)) (s : Switchboard α ρ),
      l.foldl (fun s c => s.enqueue (.caller c.id)) (s.prepend signals) =
        (l.foldl (fun s c => s.enqueue (.caller c.id)) s).prepend signals := by
    intro l
    induction l with
    | nil => exact fun _ => rfl
    | cons c rest ih =>
      intro s
      rw [List.foldl_cons, List.foldl_cons, enqueue_prepend, ih]
  exact hfold _ s

/-- Nor to those who wait for exchanges. -/
theorem foldl_wakeWaiting_prepend (l : List Nat) (s : Switchboard α ρ) :
    l.foldl wakeWaiting (s.prepend signals) = (l.foldl wakeWaiting s).prepend signals := by
  induction l generalizing s with
  | nil => rfl
  | cons id rest ih =>
    have hfirst : (s.prepend signals).wakeWaiting id = (s.wakeWaiting id).prepend signals :=
      wakeWhere_prepend signals s _
    rw [List.foldl_cons, List.foldl_cons, hfirst, ih]

/-- Nor to the handshake. -/
theorem greet_prepend (s : Switchboard α ρ) :
    (s.prepend signals).greet = s.greet.prepend signals := by
  rw [greet, greet]
  have hlink : (s.prepend signals).link = s.link := rfl
  have hwire : (s.prepend signals).wire = s.wire := rfl
  have hnow : (s.prepend signals).now = s.now := rfl
  rw [hlink, hwire, hnow]
  split
  · rfl
  · split
    · next w more _ => exact hear_prepend signals { s with wire := w } more
    · rfl

/-- Nor to a message. -/
theorem dispatch_prepend (s : Switchboard α ρ) (message : Json) :
    (s.prepend signals).dispatch message = (s.dispatch message).prepend signals := by
  simp only [dispatch]
  exact foldl_wakeWaiting_prepend signals _
    { s with
      correlator := (s.correlator.dispatch s.now message).1
      wire := { s.wire with
        pruned := s.wire.pruned ++ (s.correlator.dispatch s.now message).2.pruned } }

/-- Nor to the failure of all exchanges. -/
theorem failAll_prepend (s : Switchboard α ρ) :
    (s.prepend signals).failAll = s.failAll.prepend signals :=
  foldl_wakeWaiting_prepend signals _
    { s with correlator := (s.correlator.failAll s.now .connectionLost).1 }

/-- Handling a signal looks at no other signal. -/
theorem handle_prepend (s : Switchboard α ρ) (signal : Signal) :
    (s.prepend signals).handle signal = (s.handle signal).prepend signals := by
  simp only [handle]
  have hlink : (s.prepend signals).link = s.link := rfl
  rw [hlink]
  split
  · rfl
  · cases signal with
    | opened g =>
      dsimp only
      rw [greet_prepend]
      exact wakeWhere_prepend signals { s.greet with link := s.greet.link.opened g } _
    | message g payload => exact dispatch_prepend signals s payload
    | closed g reason =>
      have hwake : ({ s.prepend signals with link := s.link.closed g } :
          Switchboard α ρ).wakeOpening =
          ({ s with link := s.link.closed g } : Switchboard α ρ).wakeOpening.prepend signals :=
        wakeWhere_prepend signals { s with link := s.link.closed g } _
      dsimp only
      rw [hwake, failAll_prepend]

end Prepend

/-- Signals are delivered in the order in which they were taken in. -/
theorem play_deliver (l : List Signal) (s : Switchboard α ρ) :
    (s.prepend l).play (List.replicate l.length .deliver) = l.foldl handle s := by
  induction l generalizing s with
  | nil => rfl
  | cons signal rest ih =>
    have hfirst : (s.prepend (signal :: rest)).move .deliver = (s.handle signal).prepend rest :=
      handle_prepend rest s signal
    rw [List.length_cons, List.replicate_succ, play, List.foldl_cons, hfirst, List.foldl_cons]
    exact ih _

/-- Signals are handled by as many deliveries. -/
theorem sift_eq_play (s : Switchboard α ρ) :
    s.sift = s.play (List.replicate s.inbox.length .deliver) := by
  have hall : ({ s with inbox := [] } : Switchboard α ρ).prepend s.inbox = s := by
    rw [prepend, List.append_nil]
  have hplay := play_deliver s.inbox ({ s with inbox := [] } : Switchboard α ρ)
  rw [hall] at hplay
  exact hplay.symm

/-- Handling all signals is handling them one by one. -/
theorem drain_eq_play (s : Switchboard α ρ) :
    s.drain = s.play (List.replicate s.inbox.length .deliver ++
      List.replicate s.sift.inbox.length .deliver ++ [.hush]) := by
  rw [play_concat, play_append, ← sift_eq_play, ← sift_eq_play]
  rfl

/-! ### Runs are plays -/

/-- A play of moves with a property leads from one state to another. -/
def PlaysTo (p : Move α ρ → Prop) (s s' : Switchboard α ρ) : Prop :=
  ∃ moves, (∀ m ∈ moves, p m) ∧ s' = s.play moves

/-- The play without moves. -/
theorem PlaysTo.refl (p : Move α ρ → Prop) (s : Switchboard α ρ) : PlaysTo p s s :=
  ⟨[], fun _ h => absurd h List.not_mem_nil, rfl⟩

/-- Two plays one after the other. -/
theorem PlaysTo.trans {p : Move α ρ → Prop} {s₁ s₂ s₃ : Switchboard α ρ} (h₁ : PlaysTo p s₁ s₂)
    (h₂ : PlaysTo p s₂ s₃) : PlaysTo p s₁ s₃ := by
  obtain ⟨xs, hxs, rfl⟩ := h₁
  obtain ⟨ys, hys, rfl⟩ := h₂
  refine ⟨xs ++ ys, fun m hm => ?_, (s₁.play_append xs ys).symm⟩
  rcases List.mem_append.mp hm with h | h
  · exact hxs m h
  · exact hys m h

/-- The play of one move. -/
theorem playsTo_move {p : Move α ρ → Prop} (s : Switchboard α ρ) {m : Move α ρ} (hm : p m) :
    PlaysTo p s (s.move m) :=
  ⟨[m], fun _ h => List.mem_singleton.mp h ▸ hm, rfl⟩

section Own

variable {p : Move α ρ → Prop} (hp : ∀ m : Move α ρ, m.Own → p m)
include hp

/-- Signals are handled in a play. -/
theorem playsTo_drain (s : Switchboard α ρ) : PlaysTo p s s.drain := by
  refine ⟨_, fun m hm => hp m ?_, s.drain_eq_play⟩
  rcases List.mem_append.mp hm with h | h
  · rcases List.mem_append.mp h with h | h
    · rw [List.eq_of_mem_replicate h]
      trivial
    · rw [List.eq_of_mem_replicate h]
      trivial
  · rw [List.mem_singleton.mp h]
    trivial

/-- So is what happens next. -/
theorem playsTo_next (s : Switchboard α ρ) : PlaysTo p s (s.occur .next) := by
  by_cases hr : ∃ rest, s.ready = .signals :: rest
  · obtain ⟨rest, hr⟩ := hr
    have hpop : s.move .next = { s with ready := rest } := by
      rw [move, hr]
    rw [occur_next_of_ready hr, ← hpop]
    exact (playsTo_move s (hp .next trivial)).trans (playsTo_drain hp _)
  · have hnext : s.move .next = s.occur .next := by
      rw [move]
      split
      · next rest heq => exact absurd ⟨rest, heq⟩ hr
      · rfl
    exact hnext ▸ playsTo_move s (hp .next trivial)

/-- And what happens for a while. -/
theorem playsTo_happen (n : Nat) (s : Switchboard α ρ) : PlaysTo p s (s.happen n) := by
  induction n generalizing s with
  | zero => exact .refl p s
  | succ n ih =>
    rw [happen]
    cases hn : s.next? with
    | none => exact .refl p s
    | some s' =>
      have heq : s' = s.occur .next := by rw [occur, hn, Option.getD_some]
      rw [heq]
      exact (playsTo_next hp s).trans (ih _)

/-- Time passes in a play. -/
theorem playsTo_elapse (limit n : Nat) (s : Switchboard α ρ) :
    PlaysTo p s (elapse limit n s) := by
  induction n generalizing s with
  | zero => exact .refl p s
  | succ n ih =>
    rw [elapse]
    cases s.nextInstant? limit with
    | none => exact .refl p s
    | some instant =>
      have htick := playsTo_move (p := p) s (m := .tick instant) (hp _ trivial)
      exact (htick.trans (playsTo_happen hp _ _)).trans (ih _)

/-- Up to its end. -/
theorem playsTo_advance {s : Switchboard α ρ} (h : s.Orderly) (duration : Nat) :
    PlaysTo p s (s.advance duration) := by
  have htick := playsTo_move (p := p) (elapse (s.now + duration) (duration + 1) s)
    (m := .tick (s.now + duration)) (hp _ trivial)
  rw [move, ← advance_eq_occur h] at htick
  exact (playsTo_elapse hp _ _ s).trans htick

/-- A step is a play. -/
theorem playsTo_step {s : Switchboard α ρ} (h : s.Orderly) {t : Step α ρ}
    (ht : ∀ signal, t = .signal signal → p (.intrude signal)) : PlaysTo p s (s.step t).1 := by
  have hact : PlaysTo p s (s.act t).1 := by
    by_cases hplain : t.Plain
    · exact playsTo_move s (hp (.act t hplain) trivial)
    · cases t with
      | pump => exact playsTo_drain hp s
      | signal signal => exact playsTo_move s (ht signal rfl)
      | advance duration => exact playsTo_advance hp h duration
      | _ => exact absurd trivial hplain
  exact hact.trans (playsTo_happen hp _ _)

/-- The states of a run are among those that plays lead to. A signal from elsewhere is handled
only where a step says so. -/
theorem playsTo_run {s : Switchboard α ρ} (h : s.Orderly) {steps : List (Step α ρ)}
    (hsteps : ∀ signal, .signal signal ∈ steps → p (.intrude signal)) :
    PlaysTo p s (s.run steps) := by
  induction steps generalizing s with
  | nil => exact .refl p s
  | cons t rest ih =>
    have hfirst : PlaysTo p s (s.step t).1 := by
      refine playsTo_step hp h fun signal heq => hsteps signal ?_
      rw [heq]
      exact List.mem_cons_self
    have ho : (s.step t).1.Orderly := by
      obtain ⟨moves, -, heq⟩ := hfirst
      exact heq ▸ orderly_play h moves
    exact hfirst.trans (ih ho fun signal hmem => hsteps signal (List.mem_cons_of_mem _ hmem))

end Own

end VenueLink.Switchboard

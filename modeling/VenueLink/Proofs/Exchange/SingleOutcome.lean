import VenueLink.Exchange.Timeline
import VenueLink.Proofs.Exchange.Registry

/-!
# One outcome for each exchange

A timeline moves when a caller takes a step, and when an exchange runs into its deadline; here
the latter may happen at any moment, so that every order of the two is covered. A move *reports*
the exchanges that it ended, each operation in its own way: `dispatch` lists them, `resolve` and
`fail` answer true, `failAll` counts them, and an expiry is its own report. A move *writes* the
outcomes of the exchanges that it ended.

## Main results

* `reported_eq_written`: a move reports exactly the exchanges whose outcomes it writes.
* `outcomes_after`: the outcomes after several moves are those that the moves have written, in
  order.
* `ended_once`: in every run an exchange is open exactly as long as it has no outcome, one move
  at most reports it, and whoever holds its handle reads what that move wrote.
* `run_eq_after`: the states of `Timeline.run` are among those that moves lead to.
-/

namespace VenueLink.Exchange.Timeline

open Correlator

variable {α : Type}

/-- What happens to a timeline. -/
inductive Move (α : Type) where
  /-- A caller takes a step. -/
  | step (s : Step α)
  /-- An exchange runs into its deadline, which is noted as an instant. -/
  | expire (id instant : Nat)

/-- Make a move. -/
def move (t : Timeline α) : Move α → Timeline α
  | .step s => (t.act s).1
  | .expire id instant => { t with correlator := t.correlator.expire instant id }

/-- Make several moves. -/
def after (t : Timeline α) (moves : List (Move α)) : Timeline α :=
  moves.foldl move t

/-- The outcomes of the exchanges that run into their deadline up to an instant. -/
def expiries (t : Timeline α) (limit : Nat) : List (Outcome α) :=
  (t.correlator.due limit).map fun e => ⟨e.id, e.deadline, e.failure .timeout⟩

/-- The open exchange whose handle is held under a name. -/
def heldExchange? (t : Timeline α) (name : String) : Option (Entry α) :=
  (t.handles.lookup name).bind t.correlator.pending?

/-- The open exchange that a name was given to. -/
def namedExchange? (t : Timeline α) (name : String) : Option (Entry α) :=
  (t.names.lookup name).bind t.correlator.pending?

/-- The exchanges that a move reports to have ended, in its own way. -/
def reported (t : Timeline α) : Move α → List Nat
  | .step (.dispatch m) => (t.correlator.dispatch t.now m).2.resolved
  | .step (.resolve name r) => match (t.act (.resolve name r)).2 with
    | .decided true => (t.handles.lookup name).toList
    | _ => []
  | .step (.fail name cause) => match (t.act (.fail name cause)).2 with
    | .decided true => (t.names.lookup name).toList
    | _ => []
  | .step (.failAll cause) => match (t.act (.failAll cause)).2 with
    | .count n => t.correlator.pendingIds.take n
    | _ => []
  | .step (.advance duration) => (t.expiries (t.now + duration)).map Outcome.id
  | .step (.wait name) => match t.heldExchange? name with
    | some e => (t.expiries e.deadline).map Outcome.id
    | none => []
  | .step (.register ..) => []
  | .step (.drop _) => []
  | .expire id _ => if id ∈ t.correlator.pendingIds then [id] else []

/-- What a move writes: the outcomes of the exchanges that it ends. -/
def written (t : Timeline α) : Move α → List (Outcome α)
  | .step (.dispatch m) => (t.correlator.decided m).map fun p => ⟨p.1.id, t.now, p.2⟩
  | .step (.resolve name r) => (t.heldExchange? name).toList.map fun e => ⟨e.id, t.now, r⟩
  | .step (.fail name cause) =>
    (t.namedExchange? name).toList.map fun e => ⟨e.id, t.now, e.failure cause⟩
  | .step (.failAll cause) => t.correlator.entries.map fun e => ⟨e.id, t.now, e.failure cause⟩
  | .step (.advance duration) => t.expiries (t.now + duration)
  | .step (.wait name) => match t.heldExchange? name with
    | some e => t.expiries e.deadline
    | none => []
  | .step (.register ..) => []
  | .step (.drop _) => []
  | .expire id instant =>
    t.correlator.pending? id |>.toList.map fun e => ⟨e.id, instant, e.failure .timeout⟩

/-- What several moves report, in order. -/
def reports (t : Timeline α) : List (Move α) → List Nat
  | [] => []
  | m :: rest => t.reported m ++ (t.move m).reports rest

/-- What several moves write, in order. -/
def journal (t : Timeline α) : List (Move α) → List (Outcome α)
  | [] => []
  | m :: rest => t.written m ++ (t.move m).journal rest

/-- The registry is sound, and every name and handle belongs to an exchange. -/
structure Sound (t : Timeline α) : Prop where
  correlator : t.correlator.Sound
  names_lt : ∀ p ∈ t.names, p.2 < t.correlator.next
  handles_lt : ∀ p ∈ t.handles, p.2 < t.correlator.next

/-- At the start everything is in order. -/
theorem sound_start (cap : Nat) : (start cap : Timeline α).Sound :=
  ⟨Correlator.sound_start cap, fun _ h => absurd h List.not_mem_nil,
    fun _ h => absurd h List.not_mem_nil⟩

/-- A handle that is found is held. -/
theorem mem_of_lookup {l : List (String × Nat)} {name : String} {id : Nat}
    (h : l.lookup name = some id) : (name, id) ∈ l := by
  obtain ⟨l₁, l₂, rfl, -⟩ := List.lookup_eq_some_iff.mp h
  simp

/-! ### A move ends exchanges -/

/-- The timeline `t'` is what `t` becomes when exchanges end; no names or handles are new. -/
structure Follows (t : Timeline α) (ended : List (Outcome α)) (t' : Timeline α) : Prop where
  ends : t.correlator.Ends ended t'.correlator
  names_subset : ∀ p ∈ t'.names, p ∈ t.names
  handles_subset : ∀ p ∈ t'.handles, p ∈ t.handles

/-- Order is kept where exchanges end. -/
theorem Follows.sound {t t' : Timeline α} {ended : List (Outcome α)} (h : t.Follows ended t')
    (hs : t.Sound) : t'.Sound where
  correlator := hs.correlator.of_ends h.ends
  names_lt p hp := h.ends.next_eq ▸ hs.names_lt p (h.names_subset p hp)
  handles_lt p hp := h.ends.next_eq ▸ hs.handles_lt p (h.handles_subset p hp)

/-- Only the correlator changes, by exchanges that end. -/
theorem Follows.of_ends {t : Timeline α} {c : Correlator α} {ended : List (Outcome α)}
    (h : t.correlator.Ends ended c) : t.Follows ended { t with correlator := c } :=
  ⟨h, fun _ hp => hp, fun _ hp => hp⟩

/-- Nothing happens. -/
theorem Follows.refl (t : Timeline α) : t.Follows [] t :=
  ⟨.refl _, fun _ hp => hp, fun _ hp => hp⟩

/-- Letting a handle go ends nothing. -/
theorem Follows.release {t t' : Timeline α} {ended : List (Outcome α)} (h : t.Follows ended t')
    (name : String) : t.Follows ended (t'.release name) :=
  ⟨h.ends, h.names_subset, fun p hp => h.handles_subset p (List.mem_filter.mp hp).1⟩

/-- Exchanges run into their deadlines as time passes. -/
theorem follows_elapse {t : Timeline α} (h : t.Sound) (limit : Nat) :
    t.Follows (t.expiries limit) (t.elapse limit) :=
  ⟨ends_elapse h.correlator limit, fun _ hp => hp, fun _ hp => hp⟩

/-- A correlator whose exchanges end one by one, each if it is open. -/
theorem ends_toList {c c' : Correlator α} {id : Nat} {f : Entry α → Outcome α}
    (hnone : id ∉ c.pendingIds → c' = c)
    (hsome : ∀ e ∈ c.entries, e.id = id → c.Ends [f e] c') :
    c.Ends (c.pending? id |>.toList.map f) c' := by
  cases he : c.pending? id with
  | none =>
    rw [hnone (pending?_eq_none_iff.mp he)]
    exact .refl c
  | some e =>
    obtain ⟨hmem, hid⟩ := mem_of_pending?_eq_some he
    exact hsome e hmem hid

/-- Except for a registration, a move ends the exchanges whose outcomes it writes. -/
theorem follows_move {t : Timeline α} (h : t.Sound) (m : Move α)
    (hm : ∀ name matcher timeout, m ≠ .step (.register name matcher timeout)) :
    t.Follows (t.written m) (t.move m) := by
  have hc := h.correlator
  cases m with
  | expire id instant =>
    refine .of_ends (ends_toList (fun hp => expire_of_not_pending hp instant) ?_)
    rintro e he rfl
    exact ends_expire hc instant he
  | step s =>
    cases s with
    | register name matcher timeout => exact absurd rfl (hm name matcher timeout)
    | dispatch m => exact .of_ends (ends_dispatch hc t.now m)
    | failAll cause => exact .of_ends (ends_failAll hc t.now cause)
    | advance duration => exact follows_elapse h _
    | drop name => exact (Follows.refl t).release name
    | resolve name r =>
      simp only [move, act, written, heldExchange?]
      cases hl : t.handles.lookup name with
      | none => exact .refl t
      | some id =>
        refine .of_ends (ends_toList (fun hp => ?_) ?_)
        · rw [resolve_of_not_pending hc (h.handles_lt _ (mem_of_lookup hl)) hp]
        · rintro e he rfl
          exact ends_resolve hc t.now he r
    | fail name cause =>
      simp only [move, act, written, namedExchange?]
      cases hl : t.names.lookup name with
      | none => exact .refl t
      | some id =>
        refine .of_ends (ends_toList (fun hp => ?_) ?_)
        · rw [fail_of_not_pending hp]
        · rintro e he rfl
          exact ends_fail hc t.now he cause
    | wait name =>
      simp only [move, act, written, heldExchange?]
      cases hl : t.handles.lookup name with
      | none => exact .refl t
      | some id =>
        simp only [Option.bind_some, awaitEnd]
        cases t.correlator.pending? id with
        | none => exact (Follows.refl t).release name
        | some e => exact (follows_elapse h e.deadline).release name

/-- A registration gives one new exchange a name and a handle. -/
theorem sound_register {t : Timeline α} (h : t.Sound) (name : String) (matcher : Matcher α)
    (timeout : Nat) : (t.move (.step (.register name matcher timeout))).Sound where
  correlator := h.correlator.register t.now matcher timeout
  names_lt p hp := by
    change p.2 < (t.correlator.register t.now matcher timeout).next
    rw [next_register]
    rcases List.mem_cons.mp hp with rfl | hold
    · exact Nat.lt_succ_self _
    · exact Nat.lt_succ_of_lt (h.names_lt p hold)
  handles_lt p hp := by
    change p.2 < (t.correlator.register t.now matcher timeout).next
    rw [next_register]
    rcases List.mem_cons.mp hp with rfl | hold
    · exact Nat.lt_succ_self _
    · exact Nat.lt_succ_of_lt (h.handles_lt p (List.mem_filter.mp hold).1)

/-- A move keeps the registry sound and adds what it writes to the outcomes. -/
theorem move_spec {t : Timeline α} (h : t.Sound) (m : Move α) :
    (t.move m).Sound ∧
      (t.move m).correlator.outcomes = t.correlator.outcomes ++ t.written m := by
  by_cases hm : ∃ name matcher timeout, m = .step (.register name matcher timeout)
  · obtain ⟨name, matcher, timeout, rfl⟩ := hm
    exact ⟨sound_register h name matcher timeout, (List.append_nil _).symm⟩
  · have hf := follows_move h m fun name matcher timeout heq =>
      hm ⟨name, matcher, timeout, heq⟩
    exact ⟨hf.sound h, hf.ends.outcomes_eq⟩

/-- A move reports exactly the exchanges whose outcomes it writes. -/
theorem reported_eq_written {t : Timeline α} (h : t.Sound) (m : Move α) :
    t.reported m = (t.written m).map Outcome.id := by
  have hc := h.correlator
  have hentry : ∀ {id : Nat} {e : Entry α}, t.correlator.pending? id = some e → e.id = id :=
    fun he => (mem_of_pending?_eq_some he).2
  cases m with
  | expire id instant =>
    simp only [reported, written]
    cases he : t.correlator.pending? id with
    | none => simp [pending?_eq_none_iff.mp he]
    | some e =>
      have hp : id ∈ t.correlator.pendingIds := by
        by_contra hn
        rw [pending?_eq_none_iff.mpr hn] at he
        cases he
      simp [hp, hentry he]
  | step s =>
    cases s with
    | register => rfl
    | drop => rfl
    | advance => rfl
    | dispatch m => simp [reported, written, dispatch, decided, Function.comp_def]
    | failAll cause =>
      have hall : t.correlator.pendingIds.take t.correlator.entries.length =
          t.correlator.pendingIds := List.take_of_length_le (by simp [pendingIds])
      simp only [reported, written, act, failAll, hall]
      simp [pendingIds, Function.comp_def]
    | wait name =>
      simp only [reported, written]
      cases t.heldExchange? name <;> rfl
    | resolve name r =>
      simp only [reported, written, act, heldExchange?]
      cases hl : t.handles.lookup name with
      | none => rfl
      | some id =>
        have hlt := h.handles_lt _ (mem_of_lookup hl)
        simp only [Option.bind_some]
        cases he : t.correlator.pending? id with
        | none =>
          simp [resolve_of_not_pending hc hlt (pending?_eq_none_iff.mp he)]
        | some e =>
          obtain ⟨hmem, rfl⟩ := mem_of_pending?_eq_some he
          have hnone := hc.outcome?_of_pending (List.mem_map_of_mem hmem)
          simp [resolve, hnone]
    | fail name cause =>
      simp only [reported, written, act, namedExchange?]
      cases hl : t.names.lookup name with
      | none => rfl
      | some id =>
        simp only [Option.bind_some]
        cases he : t.correlator.pending? id with
        | none => simp [fail_of_not_pending (pending?_eq_none_iff.mp he)]
        | some e => simp [fail, he, hentry he]

/-! ### Runs -/

/-- What comes of moves one part after the other. -/
theorem after_append (t : Timeline α) (xs ys : List (Move α)) :
    t.after (xs ++ ys) = (t.after xs).after ys :=
  List.foldl_append

/-- Any moves keep order. -/
theorem sound_after {t : Timeline α} (h : t.Sound) (moves : List (Move α)) :
    (t.after moves).Sound := by
  induction moves generalizing t with
  | nil => exact h
  | cons m rest ih => exact ih (move_spec h m).1

/-- The outcomes after several moves are those that the moves have written, in order. -/
theorem outcomes_after {t : Timeline α} (h : t.Sound) (moves : List (Move α)) :
    (t.after moves).correlator.outcomes = t.correlator.outcomes ++ t.journal moves := by
  induction moves generalizing t with
  | nil => exact (List.append_nil _).symm
  | cons m rest ih =>
    obtain ⟨hs, ho⟩ := move_spec h m
    change ((t.move m).after rest).correlator.outcomes = _
    rw [ih hs, ho, List.append_assoc]
    rfl

/-- What is reported to end is what has been written. -/
theorem reports_eq_journal {t : Timeline α} (h : t.Sound) (moves : List (Move α)) :
    t.reports moves = (t.journal moves).map Outcome.id := by
  induction moves generalizing t with
  | nil => rfl
  | cons m rest ih =>
    rw [reports, journal, reported_eq_written h m, ih (move_spec h m).1, List.map_append]

/-- Whoever waits for an exchange learns its outcome as it is after the wait. -/
theorem wait_reply {t : Timeline α} (h : t.Sound) {name : String} {id : Nat}
    (hl : t.handles.lookup name = some id) :
    ∃ o, (t.move (.step (.wait name))).correlator.outcome? id = some o ∧
      (t.act (.wait name)).2 = .ended o.resolution := by
  have hsome : ∃ o, (t.awaitEnd id).correlator.outcome? id = some o := by
    rw [awaitEnd]
    cases he : t.correlator.pending? id with
    | none =>
      have hlt := h.handles_lt _ (mem_of_lookup hl)
      exact Option.ne_none_iff_exists'.mp fun ho =>
        pending?_eq_none_iff.mp he (h.correlator.mem_pending_iff.mpr ⟨hlt, ho⟩)
    | some e =>
      obtain ⟨hmem, rfl⟩ := mem_of_pending?_eq_some he
      have hdue :
          (⟨e.id, e.deadline, e.failure .timeout⟩ : Outcome α) ∈ t.expiries e.deadline :=
        List.mem_map.mpr ⟨e, mem_due.mpr ⟨hmem, Nat.le_refl _⟩, rfl⟩
      exact ⟨_, (ends_elapse h.correlator e.deadline).outcome?_of_mem h.correlator hdue⟩
  obtain ⟨o, ho⟩ := hsome
  refine ⟨o, ?_, ?_⟩
  · simp only [move, act, hl]
    exact ho
  · simp only [act, hl, ho]

/-- A move never changes an outcome that is there. -/
theorem outcome?_move {t : Timeline α} (h : t.Sound) (m : Move α) {id : Nat} {o : Outcome α}
    (ho : t.correlator.outcome? id = some o) : (t.move m).correlator.outcome? id = some o := by
  rw [outcome?] at ho ⊢
  rw [(move_spec h m).2, List.find?_append, ho, Option.some_or]

/-- An outcome stays. -/
theorem outcome?_after {t : Timeline α} (h : t.Sound) (moves : List (Move α)) {id : Nat}
    {o : Outcome α} (ho : t.correlator.outcome? id = some o) :
    (t.after moves).correlator.outcome? id = some o := by
  induction moves generalizing t with
  | nil => exact ho
  | cons m rest ih => exact ih (move_spec h m).1 (outcome?_move h m ho)

/-- What a move writes for an exchange is written into an empty slot. -/
theorem outcome?_of_written {t : Timeline α} (h : t.Sound) {m : Move α} {o : Outcome α}
    (ho : o ∈ t.written m) :
    t.correlator.outcome? o.id = none ∧ (t.move m).correlator.outcome? o.id = some o := by
  obtain ⟨hs, heq⟩ := move_spec h m
  refine ⟨?_, hs.correlator.outcome?_of_mem (heq ▸ List.mem_append_right _ ho)⟩
  have hnd := hs.correlator.outcomes_nodup
  rw [heq, List.map_append] at hnd
  refine outcome?_eq_none_iff.mpr fun hold => ?_
  exact (List.nodup_append.mp hnd).2.2 _ hold _ (List.mem_map_of_mem ho) rfl

/-- Exchanges that expire one after the other are so many moves. -/
theorem foldl_expire_eq_after (t : Timeline α) (l : List (Entry α)) :
    { t with correlator := l.foldl (fun c e => c.expire e.deadline e.id) t.correlator } =
      t.after (l.map fun e => .expire e.id e.deadline) := by
  induction l generalizing t with
  | nil => rfl
  | cons e rest ih => exact ih { t with correlator := t.correlator.expire e.deadline e.id }

/-- The moves of a step: the caller's, and then those of the exchanges past their deadline. -/
def movesOf (t : Timeline α) (s : Step α) : List (Move α) :=
  let u := (t.act s).1
  .step s :: (u.correlator.due u.now).map fun e => .expire e.id e.deadline

/-- A step is what its moves come to. -/
theorem step_eq_after (t : Timeline α) (s : Step α) : (t.step s).1 = t.after (t.movesOf s) := by
  change (t.act s).1.elapse (t.act s).1.now = (t.act s).1.after _
  rw [← foldl_expire_eq_after]
  simp [Timeline.elapse, Correlator.elapse]

/-- The states between the steps of a run are among those that moves lead to. -/
theorem run_eq_after (t : Timeline α) (steps : List (Step α)) :
    ∃ moves, t.run steps = t.after moves := by
  induction steps generalizing t with
  | nil => exact ⟨[], rfl⟩
  | cons s rest ih =>
    obtain ⟨moves, hmoves⟩ := ih (t.step s).1
    refine ⟨t.movesOf s ++ moves, ?_⟩
    rw [after_append, ← step_eq_after, ← hmoves]
    rfl

/-- **One outcome for each exchange.** After any moves from the start:

* the open exchanges are, each once, those that were registered and have no outcome;
* the outcomes are those that the moves have written, each exchange has one at most, and the
  exchanges that the moves have reported are the same, so that no two reports name one exchange;
* an exchange that a move has reported had no outcome before, the move wrote one, and it is the
  outcome ever after: whoever holds the handle reads it;
* whoever holds a handle learns from waiting what one of the moves, or the wait itself, has
  written.

The runs of a timeline are such moves. -/
theorem ended_once (cap : Nat) :
    (∀ moves : List (Move α),
      let t := (start cap).after moves
      t.correlator.pendingIds.Nodup ∧
      (∀ id, id ∈ t.correlator.pendingIds ↔
        id < t.correlator.next ∧ t.correlator.outcome? id = none) ∧
      t.correlator.outcomes = (start cap).journal moves ∧
      (start cap).reports moves = t.correlator.outcomes.map Outcome.id ∧
      ((start cap).reports moves).Nodup ∧
      (∀ before m later, moves = before ++ m :: later →
        let u := (start cap).after before
        ∀ id ∈ u.reported m, u.correlator.outcome? id = none ∧
          ∃ o ∈ u.written m, o.id = id ∧ t.correlator.outcome? id = some o ∧
            ∀ name, t.handles.lookup name = some id →
              (t.act (.wait name)).2 = .ended o.resolution) ∧
      ∀ name id, t.handles.lookup name = some id →
        ∃ o ∈ (start cap).journal (moves ++ [.step (.wait name)]), o.id = id ∧
          (t.act (.wait name)).2 = .ended o.resolution) ∧
    ∀ steps : List (Step α), ∃ moves, (start cap).run steps = (start cap).after moves := by
  refine ⟨fun moves => ?_, run_eq_after _⟩
  have hstart : (start cap : Timeline α).Sound := sound_start cap
  have ht := sound_after hstart moves
  have hjournal : ∀ moves : List (Move α),
      ((start cap).after moves).correlator.outcomes = (start cap).journal moves :=
    fun moves => outcomes_after hstart moves
  have hreports : (start cap).reports moves =
      ((start cap).after moves).correlator.outcomes.map Outcome.id := by
    rw [reports_eq_journal hstart, hjournal]
  refine ⟨ht.correlator.pending_nodup, fun id => ht.correlator.mem_pending_iff, hjournal moves,
    hreports, hreports ▸ ht.correlator.outcomes_nodup, ?_, ?_⟩
  · rintro before m later rfl u id hid
    have hu := sound_after hstart before
    rw [reported_eq_written hu] at hid
    obtain ⟨o, ho, rfl⟩ := List.mem_map.mp hid
    obtain ⟨hnone, hsome⟩ := outcome?_of_written hu ho
    have hlast :
        ((start cap).after (before ++ m :: later)).correlator.outcome? o.id = some o := by
      rw [after_append]
      exact outcome?_after (move_spec hu m).1 later hsome
    refine ⟨hnone, o, ho, rfl, hlast, fun name hl => ?_⟩
    obtain ⟨p, hp, hreply⟩ := wait_reply ht hl
    rw [outcome?_move ht _ hlast] at hp
    obtain rfl := Option.some.inj hp
    exact hreply
  · intro name id hl
    obtain ⟨o, ho, hreply⟩ := wait_reply ht hl
    refine ⟨o, ?_, id_of_outcome? ho, hreply⟩
    rw [← hjournal, after_append]
    exact List.mem_of_find?_eq_some ho

end VenueLink.Exchange.Timeline

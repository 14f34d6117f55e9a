import Mathlib.Data.List.Induction
import VenueLink.Proofs.Exchange.FanOut
import VenueLink.Proofs.Exchange.SingleOutcome

/-!
# What an exchange has seen

An open exchange sees every message that is offered, whichever exchange takes it, and keeps the
last ones. What it keeps is a window that slides over all messages since its registration: a
message that comes in is in the window before anybody decides on it, and whatever ends the
exchange hands the window out as it is then.

## Main results

* `Window.record`: noting a message slides the window by one.
* `mem_entries_move`, `transcript_of_written`: a move offers its message to every exchange that
  is open before it, to those that it ends as well as to those that stay open.
* `transcripts_are_windows`: after all moves the open exchanges keep such windows, and all
  resolutions that are made from a transcript carry one.
-/

namespace VenueLink.Exchange

variable {α : Type}

/-! ### Windows -/

/-- What is kept of the messages that were seen are the last ones, as many as there are up to
`cap`. -/
structure Window (cap : Nat) (seen kept : List Json) : Prop where
  suffix : kept <:+ seen
  length_eq : kept.length = min cap seen.length

/-- Nothing has been seen, and nothing kept. -/
theorem window_nil (cap : Nat) : Window cap [] [] :=
  ⟨List.suffix_rfl, (Nat.min_zero cap).symm⟩

/-- Noting a message slides the window by one. -/
theorem Window.record {cap : Nat} {seen : List Json} {e : Entry α}
    (h : Window cap seen e.transcript) (m : Json) :
    Window cap (seen ++ [m]) (e.record cap m).transcript := by
  obtain ⟨hsuffix, hlength⟩ := h
  rw [transcript_record]
  split
  · next hzero =>
    -- nothing is ever kept
    have hnil : e.transcript = [] := List.length_eq_zero_iff.mp (by omega)
    exact ⟨hnil ▸ List.nil_suffix, by simp [hnil, hzero]⟩
  · next hpos =>
    have happend : ∀ {kept : List Json}, kept <:+ seen → kept ++ [m] <:+ seen ++ [m] := by
      rintro kept ⟨dropped, rfl⟩
      exact ⟨dropped, (List.append_assoc ..).symm⟩
    split
    · refine ⟨happend hsuffix, ?_⟩
      simp only [List.length_append, List.length_singleton]
      omega
    · refine ⟨happend ((List.tail_suffix _).trans hsuffix), ?_⟩
      simp only [List.length_append, List.length_tail, List.length_singleton]
      omega

/-! ### Operations that offer nothing -/

namespace Correlator

/-- An outcome that is assigned closes nothing by itself. -/
theorem entries_assign (now : Nat) (c : Correlator α) (id : Nat) (r : Resolution α) :
    (c.assign now id r).entries = c.entries := by
  rw [assign]
  split <;> rfl

/-- No exchange is opened by a resolution. -/
theorem entries_resolve_subset (now : Nat) (c : Correlator α) (id : Nat) (r : Resolution α) :
    (c.resolve now id r).1.entries ⊆ c.entries := by
  rw [resolve, entries_assign]
  exact List.filter_subset_self _

/-- Nor by a failure. -/
theorem entries_fail_subset (now : Nat) (c : Correlator α) (id : Nat) (cause : Cause) :
    (c.fail now id cause).1.entries ⊆ c.entries := by
  rw [fail]
  split
  · rw [entries_assign]
    exact List.filter_subset_self _
  · exact List.Subset.refl _

/-- None is open when all have failed. -/
theorem entries_failAll (now : Nat) (c : Correlator α) (cause : Cause) :
    (c.failAll now cause).1.entries = [] :=
  entries_assignAll now _ { c with entries := [] }

/-- None is opened as time passes. -/
theorem entries_elapse_subset (limit : Nat) (c : Correlator α) :
    (c.elapse limit).entries ⊆ c.entries := by
  rw [elapse]
  generalize c.due limit = l
  induction l generalizing c with
  | nil => exact List.Subset.refl _
  | cons e rest ih =>
      exact List.Subset.trans (ih _) (entries_fail_subset e.deadline c e.id .timeout)

end Correlator

namespace Timeline

open Correlator

/-! ### Moves -/

/-- The message that a move offers to the open exchanges, if it does. -/
def Move.offered : Move α → List Json
  | .step (.dispatch m) => [m]
  | _ => []

/-- The move ends an exchange with a resolution that comes from outside. -/
def Move.Decrees : Move α → Prop
  | .step (.resolve ..) => True
  | _ => False

/-- An exchange that has noted what a move offers. -/
def Move.noted (cap : Nat) (m : Move α) (e : Entry α) : Entry α :=
  m.offered.foldl (fun e message => e.record cap message) e

/-- What an exchange notes in a move leaves its number. -/
theorem id_noted (cap : Nat) (m : Move α) (e : Entry α) : (m.noted cap e).id = e.id := by
  cases m with
  | expire id instant => rfl
  | step s =>
    cases s with
    | dispatch message => exact Entry.id_record cap message e
    | _ => rfl

/-- It keeps the last of what it has seen. -/
theorem window_noted {cap : Nat} {seen : List Json} {e : Entry α}
    (h : Window cap seen e.transcript) (m : Move α) :
    Window cap (seen ++ m.offered) (m.noted cap e).transcript := by
  have hnothing : Window cap (seen ++ []) e.transcript := (List.append_nil seen).symm ▸ h
  cases m with
  | expire id instant => exact hnothing
  | step s =>
    cases s with
    | dispatch message => exact h.record message
    | _ => exact hnothing

/-- In a move that offers nothing it notes nothing. -/
theorem noted_of_offered_eq_nil {m : Move α} (h : m.offered = []) (cap : Nat) (e : Entry α) :
    m.noted cap e = e := by
  rw [Move.noted, h]
  rfl

/-- Unless it registers an exchange or offers a message, a move opens nothing and notes nothing.
-/
theorem entries_move_subset (t : Timeline α) {m : Move α} (hoffered : m.offered = [])
    (hregister : ∀ name matcher timeout, m ≠ .step (.register name matcher timeout)) :
    (t.move m).correlator.entries ⊆ t.correlator.entries := by
  cases m with
  | expire id instant => exact entries_fail_subset instant t.correlator id .timeout
  | step s =>
    cases s with
    | register name matcher timeout => exact absurd rfl (hregister name matcher timeout)
    | dispatch message => cases hoffered
    | failAll cause =>
      change (t.correlator.failAll t.now cause).1.entries ⊆ _
      rw [entries_failAll]
      exact List.nil_subset _
    | advance duration => exact entries_elapse_subset _ _
    | drop name => exact List.Subset.refl _
    | resolve name r =>
      simp only [move, act]
      split
      · exact List.Subset.refl _
      · exact entries_resolve_subset _ _ _ _
    | fail name cause =>
      simp only [move, act]
      split
      · exact List.Subset.refl _
      · exact entries_fail_subset _ _ _ _
    | wait name =>
      simp only [move, act, awaitEnd]
      split
      · exact List.Subset.refl _
      · split
        · exact entries_elapse_subset _ _
        · exact List.Subset.refl _

/-- What is open after a move was open before and has noted what was offered, or it is new. -/
theorem mem_entries_move {t : Timeline α} {m : Move α} {e : Entry α}
    (he : e ∈ (t.move m).correlator.entries) :
    (∃ d ∈ t.correlator.entries, e = m.noted t.correlator.cap d) ∨
      e.id = t.correlator.next ∧ e.transcript = [] ∧ m.offered = [] := by
  have hother : m.offered = [] →
      (∀ name matcher timeout, m ≠ .step (.register name matcher timeout)) →
      ∃ d ∈ t.correlator.entries, e = m.noted t.correlator.cap d := fun hoffered hregister =>
    ⟨e, entries_move_subset t hoffered hregister he,
      (noted_of_offered_eq_nil hoffered _ e).symm⟩
  cases m with
  | expire id instant => exact .inl (hother rfl nofun)
  | step s =>
    cases s with
    | register name matcher timeout =>
      refine (List.mem_append.mp he).imp (fun hmem => ⟨e, hmem, rfl⟩) fun hnew => ?_
      obtain rfl := List.mem_singleton.mp hnew
      exact ⟨rfl, rfl, rfl⟩
    | dispatch message =>
      change e ∈ (t.correlator.dispatch t.now message).1.entries at he
      rw [entries_dispatch] at he
      obtain ⟨d, hd, rfl⟩ := List.mem_map.mp he
      refine .inl ⟨d, ?_, rfl⟩
      rcases List.mem_append.mp hd with hreached | hbehind
      · exact List.mem_of_mem_take (List.mem_filter.mp hreached).1
      · exact List.mem_of_mem_drop hbehind
    | _ => exact .inl (hother rfl nofun)

/-- A message ends an exchange with its transcript. -/
theorem transcript_of_decide? {e : Entry α} {m : Json} {r : Resolution α}
    (h : e.decide? m = some r) : r.transcript = e.transcript := by
  cases r with
  | matched a =>
    obtain ⟨-, rfl⟩ := decide?_matched h
    rfl
  | failed f =>
    obtain rfl := decide?_failed h
    rfl

/-- What a move writes for an exchange carries its transcript with what the move offers, unless
it comes from outside. -/
theorem transcript_of_written {t : Timeline α} {m : Move α} (hm : ¬m.Decrees) {o : Outcome α}
    (ho : o ∈ t.written m) :
    ∃ e ∈ t.correlator.entries, o.id = e.id ∧
      o.resolution.transcript = (m.noted t.correlator.cap e).transcript := by
  have hexpired : ∀ {limit : Nat}, o ∈ t.expiries limit →
      ∃ e ∈ t.correlator.entries, o.id = e.id ∧
      o.resolution.transcript = e.transcript := by
    intro limit ho
    obtain ⟨e, he, rfl⟩ := List.mem_map.mp ho
    exact ⟨e, (mem_due.mp he).1, rfl, rfl⟩
  cases m with
  | expire id instant =>
    obtain ⟨e, he, rfl⟩ := List.mem_map.mp ho
    exact ⟨e, (mem_of_pending?_eq_some (Option.mem_toList.mp he)).1, rfl, rfl⟩
  | step s =>
    cases s with
    | register name matcher timeout => cases ho
    | drop name => cases ho
    | resolve name r => exact absurd trivial hm
    | advance duration => exact hexpired ho
    | dispatch message =>
      obtain ⟨⟨e, r⟩, hp, rfl⟩ := List.mem_map.mp ho
      obtain ⟨d, hd, rfl, hdecide⟩ := mem_decided hp
      exact ⟨d, hd, Entry.id_record _ _ _, transcript_of_decide? hdecide⟩
    | fail name cause =>
      obtain ⟨e, he, rfl⟩ := List.mem_map.mp ho
      obtain ⟨id, -, hentry⟩ := Option.bind_eq_some_iff.mp (Option.mem_toList.mp he)
      exact ⟨e, (mem_of_pending?_eq_some hentry).1, rfl, rfl⟩
    | failAll cause =>
      obtain ⟨e, he, rfl⟩ := List.mem_map.mp ho
      exact ⟨e, he, rfl, rfl⟩
    | wait name =>
      simp only [written] at ho
      cases hw : t.heldExchange? name with
      | none =>
        rw [hw] at ho
        cases ho
      | some d =>
        rw [hw] at ho
        exact hexpired ho

/-- A move registers one exchange at most. -/
theorem next_move {t : Timeline α} (h : t.Sound) (m : Move α) :
    t.correlator.next ≤ (t.move m).correlator.next := by
  by_cases hm : ∃ name matcher timeout, m = .step (.register name matcher timeout)
  · obtain ⟨name, matcher, timeout, rfl⟩ := hm
    exact Nat.le_of_lt (Nat.lt_of_lt_of_eq (Nat.lt_succ_self _) (next_register ..).symm)
  · exact Nat.le_of_eq (follows_move h m fun name matcher timeout heq =>
      hm ⟨name, matcher, timeout, heq⟩).ends.next_eq.symm

/-- The cap stays. -/
theorem cap_move {t : Timeline α} (h : t.Sound) (m : Move α) :
    (t.move m).correlator.cap = t.correlator.cap := by
  by_cases hm : ∃ name matcher timeout, m = .step (.register name matcher timeout)
  · obtain ⟨name, matcher, timeout, rfl⟩ := hm
    rfl
  · exact (follows_move h m fun name matcher timeout heq =>
      hm ⟨name, matcher, timeout, heq⟩).ends.cap_eq

/-! ### Runs -/

/-- The messages that several moves offer once an exchange has been registered. -/
def offeredTo (t : Timeline α) (id : Nat) : List (Move α) → List Json
  | [] => []
  | m :: rest =>
    (if id < t.correlator.next then m.offered else []) ++ (t.move m).offeredTo id rest

/-- What an exchange is offered in one more move. -/
theorem offeredTo_concat (t : Timeline α) (id : Nat) (moves : List (Move α)) (m : Move α) :
    t.offeredTo id (moves ++ [m]) =
      t.offeredTo id moves ++ if id < (t.after moves).correlator.next then m.offered
        else [] := by
  induction moves generalizing t with
  | nil => exact List.append_nil _
  | cons m' rest ih =>
    rw [List.cons_append, offeredTo, ih, offeredTo, List.append_assoc]
    rfl

/-- What is offered before an exchange is registered is not offered to it. -/
theorem offeredTo_eq_nil {t : Timeline α} (h : t.Sound) {id : Nat} (moves : List (Move α))
    (hid : (t.after moves).correlator.next ≤ id) : t.offeredTo id moves = [] := by
  induction moves using List.reverseRecOn with
  | nil => rfl
  | append_singleton moves m ih =>
    have hle := next_move (sound_after h moves) m
    rw [after_append] at hid
    have hbefore : (t.after moves).correlator.next ≤ id := Nat.le_trans hle hid
    rw [offeredTo_concat, ih hbefore, if_neg (Nat.not_lt.mpr hbefore)]
    rfl

/-- What an open exchange keeps is a window over what it was offered. -/
structure Seen (cap : Nat) (offered : Nat → List Json) (t : Timeline α) : Prop where
  cap_eq : t.correlator.cap = cap
  window : ∀ e ∈ t.correlator.entries, Window cap (offered e.id) e.transcript

/-- An exchange that is open when a move comes has been offered what the move offers. -/
theorem offeredTo_of_mem {t : Timeline α} (h : t.Sound) (moves : List (Move α)) (m : Move α)
    {e : Entry α} (he : e ∈ (t.after moves).correlator.entries) :
    t.offeredTo e.id (moves ++ [m]) = t.offeredTo e.id moves ++ m.offered := by
  have hlt := (sound_after h moves).correlator.lt_of_pending (List.mem_map_of_mem he)
  rw [offeredTo_concat, if_pos hlt]

/-- After any moves every exchange has kept the last of what it was offered. -/
theorem seen_after (cap : Nat) (moves : List (Move α)) :
    Seen cap (fun id => (start cap).offeredTo id moves) ((start cap).after moves) := by
  have hstart : (start cap : Timeline α).Sound := sound_start cap
  induction moves using List.reverseRecOn with
  | nil => exact ⟨rfl, fun _ he => absurd he List.not_mem_nil⟩
  | append_singleton moves m ih =>
    have hs := sound_after hstart moves
    have hlast : (start cap).after (moves ++ [m]) = ((start cap).after moves).move m :=
      after_append _ moves [m]
    rw [hlast]
    refine ⟨(cap_move hs m).trans ih.cap_eq, fun e he => ?_⟩
    rcases mem_entries_move he with ⟨d, hd, rfl⟩ | ⟨hid, hnil, hoffered⟩
    · rw [id_noted, offeredTo_of_mem hstart moves m hd, ih.cap_eq]
      exact window_noted (ih.window d hd) m
    · rw [hnil, offeredTo_concat, offeredTo_eq_nil hstart moves (Nat.le_of_eq hid.symm),
        hoffered, ite_self]
      exact window_nil cap

/-- An outcome has been written by one of the moves. -/
theorem exists_writing {t : Timeline α} (h : t.Sound) {moves : List (Move α)} {o : Outcome α}
    (ho : o ∈ t.journal moves) :
    ∃ before m later, moves = before ++ m :: later ∧ o ∈ (t.after before).written m := by
  induction moves generalizing t with
  | nil => cases ho
  | cons m rest ih =>
    rcases List.mem_append.mp ho with hfirst | hlater
    · exact ⟨[], m, rest, rfl, hfirst⟩
    · obtain ⟨before, m', later, rfl, hmem⟩ := ih (move_spec h m).1 hlater
      exact ⟨m :: before, m', later, rfl, hmem⟩

/-- **Transcripts are windows.** After any moves from the start:

* every open exchange keeps the last `cap` messages, or all if there are fewer, of those that
  were offered since its registration, in order and whoever took them;
* every resolution that a move writes carries such a window over what was offered up to and with
  that move, unless the resolution came from outside, and it stays the outcome of its exchange;
* there are no other outcomes.

The runs of a timeline are such moves. -/
theorem transcripts_are_windows (cap : Nat) :
    (∀ moves : List (Move α),
      let t := (start cap).after moves
      (∀ e ∈ t.correlator.entries,
        Window cap ((start cap).offeredTo e.id moves) e.transcript) ∧
      (∀ before m later, moves = before ++ m :: later → ¬m.Decrees →
        ∀ o ∈ ((start cap).after before).written m,
          t.correlator.outcome? o.id = some o ∧
          Window cap ((start cap).offeredTo o.id (before ++ [m])) o.resolution.transcript) ∧
      ∀ id o, t.correlator.outcome? id = some o →
        ∃ before m later, moves = before ++ m :: later ∧
          o ∈ ((start cap).after before).written m) ∧
    ∀ steps : List (Step α), ∃ moves, (start cap).run steps = (start cap).after moves := by
  refine ⟨fun moves => ?_, run_eq_after _⟩
  have hstart : (start cap : Timeline α).Sound := sound_start cap
  refine ⟨(seen_after cap moves).window, ?_, fun id o ho => ?_⟩
  · rintro before m later rfl hm o ho
    have hu := sound_after hstart before
    have hseen := seen_after cap before
    obtain ⟨e, he, hid, htranscript⟩ := transcript_of_written hm ho
    obtain ⟨-, hsome⟩ := outcome?_of_written hu ho
    constructor
    · rw [after_append]
      exact outcome?_after (move_spec hu m).1 later hsome
    · rw [htranscript, hid, offeredTo_of_mem hstart before m he, hseen.cap_eq]
      exact window_noted (hseen.window e he) m
  · have hjournal : ((start cap).after moves).correlator.outcomes = (start cap).journal moves :=
      outcomes_after hstart moves
    exact exists_writing hstart (hjournal ▸ List.mem_of_find?_eq_some ho)

/-- Of five messages that nobody takes, an exchange that may keep two has the last two when it
fails. -/
example :
    let messages := [0, 1, 2, 3, 4].map Json.integer
    ((start 2).run (.register "only" heedless 100 :: messages.map .dispatch ++
      [.fail "only" .timeout])).correlator.outcomes =
        [⟨0, 0, .failed ⟨.timeout, [.integer 3, .integer 4]⟩⟩] := by
  decide +kernel

end Timeline

end VenueLink.Exchange

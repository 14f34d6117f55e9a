import VenueLink.Proofs.Exchange.FanOut
import VenueLink.Proofs.Switchboard.Intake

/-!
# How a signal ends an exchange

A message of the latest connection ends an exchange that it gets to and that does not pass on
it, and the end of that connection fails all exchanges that are open. While signals are handled
one after the other, an open exchange that no earlier one keeps a message from stays so until
one of the signals ends it. So when all signals are handled that have been taken in, with the
message among them, the exchange has ended: with the message, or with one that was in front of
it.

## Main results

* `endedBy_of_handle`: what a signal makes of an open exchange.
* `Stands.of_ends`: as long as an exchange is open, no earlier one comes to keep a message from
  it.
* `outcome?_drain`: how an exchange ends when signals are handled with its answer among them.
* `inbox_drain`: none are left after that.
-/

namespace VenueLink

open Exchange Correlator

variable {α ρ : Type}

/-! ### Who a message gets to -/

namespace Exchange.Correlator

/-- A part of a list in which an element is left has only such in front of it that were there
before. -/
theorem exists_split_of_sublist {β : Type} {l xs ys : List β} {a : β}
    (hsub : l.Sublist (xs ++ a :: ys)) (ha : a ∈ l) (hx : a ∉ xs) (hy : a ∉ ys) :
    ∃ front back, l = front ++ a :: back ∧ front.Sublist xs := by
  obtain ⟨front, rest, rfl, hfront, hrest⟩ := List.sublist_append_iff.mp hsub
  have hmem : a ∈ rest :=
    (List.mem_append.mp ha).resolve_left fun hmem => hx (hfront.subset hmem)
  rcases List.sublist_cons_iff.mp hrest with hall | ⟨back, rfl, -⟩
  · exact absurd (hall.subset hmem) hy
  · exact ⟨front, back, rfl, hfront⟩

/-- The exchange `id` is open, and no earlier one that is open keeps the message from it. -/
def Stands (c : Correlator α) (m : Json) (id : Nat) (matcher : Matcher α) : Prop :=
  ∃ earlier e later, c.entries = earlier ++ e :: later ∧ (e.id = id ∧ e.matcher = matcher) ∧
    ∀ d ∈ earlier, ¬d.Halts m

section Stands

variable {c c' : Correlator α} {m : Json} {id : Nat} {matcher : Matcher α}
  (h : c.Stands m id matcher)
include h

/-- The exchange is among the open ones. -/
theorem Stands.mem : ∃ e ∈ c.entries, e.id = id ∧ e.matcher = matcher := by
  obtain ⟨earlier, e, later, heq, hterms, -⟩ := h
  exact ⟨e, heq ▸ List.mem_append_right _ List.mem_cons_self, hterms⟩

/-- So its number is. -/
theorem Stands.pending : id ∈ c.pendingIds := by
  obtain ⟨e, he, rfl, -⟩ := h.mem
  exact List.mem_map_of_mem he

/-- More exchanges come behind those that are open. -/
theorem Stands.of_prefix (hentries : c.entries <+: c'.entries) : c'.Stands m id matcher := by
  obtain ⟨earlier, e, later, heq, hterms, hhalts⟩ := h
  obtain ⟨more, hmore⟩ := hentries
  refine ⟨earlier, e, later ++ more, ?_, hterms, hhalts⟩
  rw [← hmore, heq, List.append_assoc, List.cons_append]

/-- Exchanges end, but not this one; those in front of it were there before. -/
theorem Stands.of_ends (hs : c.Sound) {ended : List (Outcome α)} (hends : c.Ends ended c')
    (hp : id ∈ c'.pendingIds) : c'.Stands m id matcher := by
  obtain ⟨earlier, e, later, heq, ⟨rfl, rfl⟩, hhalts⟩ := h
  have hnd := hs.pending_nodup
  rw [pendingIds, heq, List.map_append, List.map_cons, List.nodup_append,
    List.nodup_cons] at hnd
  obtain ⟨-, ⟨hlater, -⟩, hearlier⟩ := hnd
  have hid : ∀ {l : List (Entry α)}, e.terms ∈ l.map Entry.terms → e.id ∈ l.map Entry.id := by
    intro l hmem
    obtain ⟨d, hd, hterms⟩ := List.mem_map.mp hmem
    exact List.mem_map.mpr ⟨d, hd, congrArg Prod.fst hterms⟩
  -- it is open on the terms that it had
  have hopen : e.terms ∈ c'.entries.map Entry.terms := by
    obtain ⟨e', he', hid'⟩ := List.mem_map.mp hp
    obtain ⟨d, hd, hterms⟩ := hends.terms_mem he'
    have hsame : d.id = e.id := (congrArg Prod.fst hterms).trans hid'
    obtain rfl : d = e := List.inj_on_of_nodup_map hs.pending_nodup hd
      (heq ▸ List.mem_append_right _ List.mem_cons_self) hsame
    exact hterms ▸ List.mem_map_of_mem he'
  have hsub := hends.terms_sublist
  rw [heq, List.map_append, List.map_cons] at hsub
  obtain ⟨front, back, hsplit, hfront⟩ := exists_split_of_sublist hsub hopen
    (fun hmem => hearlier _ (hid hmem) _ List.mem_cons_self rfl) (fun hmem => hlater (hid hmem))
  obtain ⟨pre, tail, hpre, rfl, htail⟩ := List.map_eq_append_iff.mp hsplit
  obtain ⟨e', post, rfl, hterms, -⟩ := List.map_eq_cons_iff.mp htail
  refine ⟨pre, e', post, hpre, ⟨congrArg Prod.fst hterms, congrArg (·.2.1) hterms⟩,
    fun d hd hhalt => ?_⟩
  obtain ⟨b, hb, hbd⟩ := List.mem_map.mp (hfront.subset (List.mem_map_of_mem hd))
  have hmatcher : b.matcher = d.matcher := congrArg (·.2.1) hbd
  exact hhalts b hb (by rwa [Entry.Halts, hmatcher])

/-- The message gets to the exchange. -/
theorem Stands.mem_takers (hv : matcher.verdict m ≠ .pass) :
    ∃ e ∈ c.takers m, e.id = id ∧ e.matcher = matcher := by
  obtain ⟨earlier, e, later, heq, ⟨rfl, rfl⟩, hhalts⟩ := h
  have hreach : earlier.length ≤ c.reach m := by
    have hnone : earlier.findIdx (·.Halts m) = earlier.length :=
      List.findIdx_eq_length_of_false fun d hd => by simpa using hhalts d hd
    rw [reach, heq, List.findIdx_append, hnone, if_neg (Nat.lt_irrefl _)]
    omega
  have hmem : e ∈ c.entries.take (c.reach m + 1) := by
    rw [heq, List.take_append, List.take_of_length_le (by omega)]
    refine List.mem_append_right _ ?_
    rw [show c.reach m + 1 - earlier.length = c.reach m - earlier.length + 1 by omega,
      List.take_succ_cons]
    exact List.mem_cons_self
  exact ⟨e, List.mem_filter.mpr ⟨hmem, by simpa using hv⟩, rfl, rfl⟩

end Stands

end Exchange.Correlator

namespace Switchboard

/-! ### One signal -/

/-- News of an open connection touches no exchange. -/
theorem correlator_handle_opened (s : Switchboard α ρ) :
    (s.handle (.opened s.link.generation)).correlator = s.correlator := by
  rw [handle_opened]
  exact (s.aside_greet.trans_nil
    ((aside_link _ _).trans_nil (aside_wakeWhere _ _))).correlator_eq

/-- News of a closed one fails all open exchanges. -/
theorem correlator_handle_closed (s : Switchboard α ρ) (reason : String) :
    (s.handle (.closed s.link.generation reason)).correlator =
      (s.correlator.failAll s.now .connectionLost).1 := by
  have hwake := aside_wakeWhere ({ s with link := { s.link with phase := .closed } } :
    Switchboard α ρ) (·.stage = .opening)
  rw [handle_closed, correlator_failAll, wakeOpening, hwake.correlator_eq, hwake.now_eq]

/-- The end of the latest connection fails every open exchange, with the messages that it has
seen. -/
theorem handle_closed_fails {s : Switchboard α ρ} (hs : s.correlator.Sound) (reason : String) :
    (s.handle (.closed s.link.generation reason)).correlator.entries = [] ∧
      ∀ e ∈ s.correlator.entries,
        (s.handle (.closed s.link.generation reason)).correlator.outcome? e.id =
          some ⟨e.id, s.now, .failed ⟨.connectionLost, e.transcript⟩⟩ := by
  rw [correlator_handle_closed]
  refine ⟨entries_assignAll _ _ _, fun e he => ?_⟩
  exact (ends_failAll hs s.now .connectionLost).outcome?_of_mem hs (List.mem_map_of_mem he)

/-- What a signal makes of an open exchange that ends with it, while the latest connection is
that of the generation `g`: its answer, its refusal, or the end of the connection. -/
def EndedBy (g : Nat) (matcher : Matcher α) : Signal → Resolution α → Prop
  | .opened _, _ => False
  | .message k p, r => k = g ∧ ∃ seen,
      matcher.verdict p = .accept ∧ r = .matched ⟨matcher.answer p, p, seen⟩ ∨
        matcher.verdict p = .refuse ∧ r = .failed ⟨.rejected, seen⟩
  | .closed k _, r => k = g ∧ ∃ seen, r = .failed ⟨.connectionLost, seen⟩

/-- What ends an exchange when a message is offered is the message. -/
theorem endedBy_of_dispatch {s : Switchboard α ρ} (hs : s.correlator.Sound) {e : Entry α}
    (he : e ∈ s.correlator.entries) {p : Json} {o : Outcome α}
    (ho : (s.dispatch p).correlator.outcome? e.id = some o) (g : Nat) :
    o.time = s.now ∧ EndedBy g e.matcher (.message g p) o.resolution := by
  rw [correlator_dispatch] at ho
  by_cases htaken : e.id ∈ (s.correlator.takers p).map Entry.id
  · obtain ⟨d, hd, hid⟩ := List.mem_map.mp htaken
    obtain ⟨hmem, hverdict⟩ := List.mem_filter.mp hd
    obtain rfl : d = e :=
      List.inj_on_of_nodup_map hs.pending_nodup (List.mem_of_mem_take hmem) he hid
    rw [outcome?_dispatch_of_mem hs _ _ hd] at ho
    obtain rfl := Option.some.inj ho
    refine ⟨rfl, rfl, (d.record s.correlator.cap p).transcript, ?_⟩
    dsimp only
    rw [Entry.ending, matcher_record]
    cases hv : d.matcher.verdict p with
    | accept => exact .inl ⟨rfl, rfl⟩
    | refuse => exact .inr ⟨rfl, rfl⟩
    | pass => simp [hv] at hverdict
  · rw [outcome?_dispatch_of_not_mem hs _ _ htaken,
      hs.outcome?_of_pending (List.mem_map_of_mem he)] at ho
    cases ho

/-- An open exchange that has ended when a signal has been handled was ended by it. -/
theorem endedBy_of_handle {s : Switchboard α ρ} (hs : s.correlator.Sound) {e : Entry α}
    (he : e ∈ s.correlator.entries) {x : Signal} {o : Outcome α}
    (ho : (s.handle x).correlator.outcome? e.id = some o) :
    o.time = s.now ∧ EndedBy s.link.generation e.matcher x o.resolution := by
  have hopen := hs.outcome?_of_pending (List.mem_map_of_mem he)
  by_cases hgeneration : x.generation = s.link.generation
  · cases x with
    | opened g =>
      obtain rfl : g = s.link.generation := hgeneration
      rw [correlator_handle_opened, hopen] at ho
      cases ho
    | message g p =>
      obtain rfl : g = s.link.generation := hgeneration
      rw [handle_message] at ho
      exact endedBy_of_dispatch hs he ho _
    | closed g reason =>
      obtain rfl : g = s.link.generation := hgeneration
      rw [(handle_closed_fails hs reason).2 e he] at ho
      obtain rfl := Option.some.inj ho
      exact ⟨rfl, rfl, e.transcript, rfl⟩
  · rw [handle_of_ne hgeneration, hopen] at ho
    cases ho

/-- Signals start no connection. -/
theorem generation_foldl_handle (s : Switchboard α ρ) (signals : List Signal) :
    (signals.foldl handle s).link.generation = s.link.generation := by
  induction signals generalizing s with
  | nil => rfl
  | cons x rest ih => exact (ih _).trans (s.generation_handle x)

section Several

variable {s : Switchboard α ρ} (hs : s.correlator.Sound) {m : Json} {id : Nat}
  {matcher : Matcher α} (h : s.correlator.Stands m id matcher)
include hs h

/-- A signal that an exchange is not open after has ended it. -/
theorem exists_ended_of_handle {x : Signal} (hp : id ∉ (s.handle x).correlator.pendingIds) :
    ∃ o, (s.handle x).correlator.outcome? id = some o ∧ o.time = s.now ∧
      EndedBy s.link.generation matcher x o.resolution := by
  obtain ⟨e, he, rfl, rfl⟩ := h.mem
  obtain ⟨ended, hends⟩ := ends_handle hs x
  have hlt : e.id < (s.handle x).correlator.next := hends.next_eq ▸ hs.lt_of_pending h.pending
  cases ho : (s.handle x).correlator.outcome? e.id with
  | none => exact absurd ((hs.of_ends hends).mem_pending_iff.mpr ⟨hlt, ho⟩) hp
  | some o => exact ⟨o, rfl, endedBy_of_handle hs he ho⟩

/-- While signals are handled, the message gets to the exchange until one of them ends that. -/
theorem stands_or_ended (signals : List Signal) :
    (signals.foldl handle s).correlator.Stands m id matcher ∨
      ∃ o, (signals.foldl handle s).correlator.outcome? id = some o ∧ o.time = s.now ∧
        ∃ x ∈ signals, EndedBy s.link.generation matcher x o.resolution := by
  induction signals generalizing s with
  | nil => exact .inl h
  | cons x rest ih =>
    obtain ⟨ended, hends⟩ := ends_handle hs x
    have hs' := hs.of_ends hends
    by_cases hp : id ∈ (s.handle x).correlator.pendingIds
    · refine (ih hs' (h.of_ends hs hends hp)).imp_right fun ⟨o, ho, htime, y, hy, hby⟩ => ?_
      rw [now_handle] at htime
      rw [generation_handle] at hby
      exact ⟨o, ho, htime, y, List.mem_cons_of_mem x hy, hby⟩
    · obtain ⟨o, ho, htime, hby⟩ := exists_ended_of_handle hs h hp
      obtain ⟨more, hmore⟩ := ends_foldl_handle hs' rest
      exact .inr ⟨o, hmore.outcome?_mono ho, htime, x, List.mem_cons_self, hby⟩

/-- Once a message has been handled that is its answer, an exchange has ended, with that or with
a signal in front of it. -/
theorem ended_of_message (haccepts : matcher.accepts m) (front : List Signal) :
    let signals := front ++ [.message s.link.generation m]
    ∃ o, (signals.foldl handle s).correlator.outcome? id = some o ∧ o.time = s.now ∧
      ∃ x ∈ signals, EndedBy s.link.generation matcher x o.resolution := by
  intro signals
  obtain ⟨ended, hends⟩ := ends_foldl_handle hs front
  have hs₁ := hs.of_ends hends
  have hsignals : signals.foldl handle s =
      (front.foldl handle s).handle (.message s.link.generation m) := by
    rw [List.foldl_append, List.foldl_cons, List.foldl_nil]
  rw [hsignals]
  rcases stands_or_ended hs h front with hstands | ⟨o, ho, htime, x, hx, hby⟩
  · have hnow := s.now_foldl_handle front
    have hgeneration := s.generation_foldl_handle front
    generalize front.foldl handle s = s₁ at hs₁ hstands hnow hgeneration ⊢
    have hclosed : id ∉ (s₁.handle (.message s.link.generation m)).correlator.pendingIds := by
      have hverdict : matcher.verdict m ≠ .pass := by simp [Matcher.verdict, haccepts]
      obtain ⟨e, he, rfl, -⟩ := hstands.mem_takers hverdict
      intro hp
      rw [← hgeneration, handle_message, correlator_dispatch] at hp
      have hnone := (hs₁.of_ends (ends_dispatch hs₁ s₁.now m)).outcome?_of_pending hp
      rw [outcome?_dispatch_of_mem hs₁ s₁.now m he] at hnone
      cases hnone
    obtain ⟨o, ho, htime, hby⟩ := exists_ended_of_handle hs₁ hstands hclosed
    rw [hgeneration] at hby
    exact ⟨o, ho, htime.trans hnow, _, List.mem_append_right _ List.mem_cons_self, hby⟩
  · obtain ⟨last, hlast⟩ := ends_handle hs₁ (.message s.link.generation m)
    exact ⟨o, hlast.outcome?_mono ho, htime, x, List.mem_append_left _ hx, hby⟩

end Several

/-! ### What is left to handle -/

/-- A message that is dispatched takes in no signal. -/
theorem inbox_dispatch (s : Switchboard α ρ) (m : Json) : (s.dispatch m).inbox = s.inbox := by
  simp only [dispatch]
  rw [foldl_wakeWaiting_eq]

/-- Offering messages brings no signals. -/
theorem inbox_foldl_handle {signals : List Signal} (h : ∀ x ∈ signals, ∃ g m, x = .message g m)
    (s : Switchboard α ρ) : (signals.foldl handle s).inbox = s.inbox := by
  induction signals generalizing s with
  | nil => rfl
  | cons x rest ih =>
    obtain ⟨g, m, rfl⟩ := h x List.mem_cons_self
    rw [List.foldl_cons, ih fun y hy => h y (List.mem_cons_of_mem _ hy)]
    by_cases hg : g = s.link.generation
    · rw [hg, handle_message, inbox_dispatch]
    · rw [handle_of_ne (x := .message g m) hg]

/-- What comes in while signals are handled are messages. -/
theorem messages_foldl_handle (signals : List Signal) {s : Switchboard α ρ}
    (h : ∀ x ∈ s.inbox, ∃ g m, x = .message g m) :
    ∀ x ∈ (signals.foldl handle s).inbox, ∃ g m, x = .message g m := by
  induction signals generalizing s with
  | nil => exact h
  | cons y rest ih =>
    refine ih fun x hx => ?_
    obtain ⟨more, heq, hmore⟩ := (s.calm_handle y).inbox
    rw [heq] at hx
    rcases List.mem_append.mp hx with hold | hnew
    · exact h x hold
    · obtain ⟨g, m, -, rfl⟩ := hmore x hnew
      exact ⟨g, m, rfl⟩

/-- No signals are left when all have been handled. -/
theorem inbox_drain (s : Switchboard α ρ) : s.drain.inbox = [] := by
  have hmessages : ∀ x ∈ s.sift.inbox, ∃ g m, x = .message g m :=
    messages_foldl_handle s.inbox (s := { s with inbox := [] })
      fun x hx => absurd hx List.not_mem_nil
  exact inbox_foldl_handle hmessages { s.sift with inbox := [] }

/-! ### Between two signals -/

/-- The switchboard once `k` of the signals have been handled that were taken in before or come
in meanwhile, or all if there are fewer. -/
def handling (s : Switchboard α ρ) (k : Nat) : Switchboard α ρ :=
  s.play (List.replicate k .deliver)

/-- Some signals and then others. -/
theorem handling_add (s : Switchboard α ρ) (j k : Nat) :
    s.handling (j + k) = (s.handling j).handling k := by
  rw [handling, ← List.replicate_append_replicate, play_append, handling, handling]

/-- Without signals there is nothing to handle. -/
theorem handling_of_inbox_eq_nil {s : Switchboard α ρ} (h : s.inbox = []) (k : Nat) :
    s.handling k = s := by
  induction k with
  | zero => rfl
  | succ k ih =>
    have hmove : s.move .deliver = s := by rw [move, h]
    change (s.move .deliver).handling k = s
    rw [hmove, ih]

/-- The signals in front are handled first. -/
theorem handling_append {s : Switchboard α ρ} {signals rest : List Signal}
    (h : s.inbox = signals ++ rest) :
    s.handling signals.length = signals.foldl handle { s with inbox := rest } := by
  have hs : ({ s with inbox := rest } : Switchboard α ρ).prepend signals = s := by
    rw [prepend, ← h]
  have hplay := play_deliver signals ({ s with inbox := rest } : Switchboard α ρ)
  rwa [hs] at hplay

/-- All signals are handled one by one, and nobody is asked to handle more. -/
theorem drain_eq_handling (s : Switchboard α ρ) :
    s.drain = (s.handling s.backlog).occur .hush := by
  rw [drain_eq_play, play_concat, List.replicate_append_replicate]
  rfl

/-- Once as many signals have been handled as there are, none are left to handle. -/
theorem handling_add_backlog (s : Switchboard α ρ) (j : Nat) :
    s.handling (j + s.backlog) = s.handling s.backlog := by
  have hnil : (s.handling s.backlog).inbox = [] := by
    have hdrain := s.inbox_drain
    rwa [drain_eq_handling] at hdrain
  rw [Nat.add_comm, handling_add, handling_of_inbox_eq_nil hnil]

section Handling

variable {s : Switchboard α ρ} (k : Nat)

/-- The latest connection stays the latest one. -/
theorem generation_handling : (s.handling k).link.generation = s.link.generation := by
  induction k generalizing s with
  | zero => rfl
  | succ k ih =>
    refine (ih (s := s.move .deliver)).trans ?_
    rw [move]
    split
    · exact generation_handle _ _
    · rfl

/-- No caller has a turn meanwhile. -/
theorem passes_handling (hs : s.correlator.Sound) : Passes [] s (s.handling k) := by
  induction k generalizing s with
  | zero => exact .refl s
  | succ k ih =>
    have hfirst : Passes [] s (s.move .deliver) := by
      rw [move]
      split
      · next x rest _ =>
        exact ((s.aside_inbox rest).passes rfl).trans
          (passes_handle (s := { s with inbox := rest }) hs x)
      · exact .refl s
    exact hfirst.trans (ih (hfirst.sound hs))

/-- Wherever the handling of the signals has come to: if the answer of an open exchange is among
those that are left, and gets to the exchange, then at the end the exchange has ended, with its
answer or with a signal in front of it. -/
theorem outcome?_drain (hs : s.correlator.Sound) {m : Json} {id : Nat} {matcher : Matcher α}
    (h : (s.handling k).correlator.Stands m id matcher) (haccepts : matcher.accepts m)
    {front rest : List Signal}
    (hinbox : (s.handling k).inbox = front ++ .message s.link.generation m :: rest) :
    ∃ o, s.drain.correlator.outcome? id = some o ∧ o.time = s.now ∧
      ∃ x ∈ front ++ [.message s.link.generation m],
        EndedBy s.link.generation matcher x o.resolution := by
  have hpasses := passes_handling k hs
  have hsk := hpasses.sound hs
  have hgeneration : (s.handling k).link.generation = s.link.generation := generation_handling k
  obtain ⟨o, ho, htime, hby⟩ := ended_of_message (s := { s.handling k with inbox := rest }) hsk
    h haccepts front
  dsimp only at ho htime hby
  rw [hgeneration] at ho hby
  rw [← handling_append (by rw [hinbox, List.append_assoc]; rfl)] at ho
  refine ⟨o, ?_, htime.trans hpasses.now_eq, hby⟩
  -- handling goes on from there until no signals are left
  generalize hj : (front ++ [Signal.message s.link.generation m]).length = j at ho
  rw [drain_eq_handling, ← s.handling_add_backlog (k + j), handling_add, handling_add]
  obtain ⟨ended, hends, -⟩ :=
    (passes_handling s.backlog ((passes_handling j hsk).sound hsk)).ends
  exact hends.outcome?_mono ho

end Handling

end Switchboard

end VenueLink

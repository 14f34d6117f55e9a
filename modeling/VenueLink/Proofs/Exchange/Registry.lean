import Mathlib.Data.List.Nodup
import Mathlib.Data.List.Perm.Basic
import VenueLink.Exchange.Correlator

/-!
# The registry and the outcomes

A correlator is `Sound` when every exchange that was ever registered is accounted for once: it
is open, or it has one outcome. Whatever an operation of the correlator does, it moves a list of
exchanges from the open ones to the ended ones; `Ends c ended c'` says that `c'` is what `c`
becomes when the exchanges of `ended` end with those outcomes and nothing else happens to the
registry.

## Main results

* `Sound.of_ends`: soundness is kept by everything that only ends exchanges.
* `Sound.register`: and by registering one more.
* `ends_dispatch`, `ends_fail`, `ends_resolve`, `ends_failAll`, `ends_expire`, `ends_elapse`:
  one lemma for each operation, with the outcomes that the operation writes.
* `Ends.outcome?_mono`: an outcome that has been written is never changed.
-/

namespace VenueLink.Exchange

variable {α : Type}

/-- What is settled about an exchange when it is registered. -/
def Entry.terms (e : Entry α) : Nat × Matcher α × Nat :=
  (e.id, e.matcher, e.deadline)

/-- A message that is noted leaves the number of the exchange. -/
@[simp] theorem Entry.id_record (cap : Nat) (m : Json) (e : Entry α) :
    (e.record cap m).id = e.id := by
  rw [Entry.record]
  split
  · rfl
  · split <;> rfl

/-- And its terms. -/
@[simp] theorem Entry.terms_record (cap : Nat) (m : Json) (e : Entry α) :
    (e.record cap m).terms = e.terms := by
  rw [Entry.record]
  split
  · rfl
  · split <;> rfl

/-- And its matcher. -/
theorem matcher_record (cap : Nat) (m : Json) (e : Entry α) :
    (e.record cap m).matcher = e.matcher := by
  have := Entry.terms_record cap m e
  simp only [Entry.terms, Prod.mk.injEq] at this
  exact this.2.1

/-! ### Sweeping a registry -/

/-- A sweep keeps or ends each exchange, and loses none. -/
theorem sweep_perm (m : Json) (l : List (Entry α)) :
    l.Perm ((sweep m l).2.map Prod.fst ++ (sweep m l).1) := by
  induction l with
  | nil => exact .nil
  | cons e rest ih =>
    rw [sweep]
    split
    · exact (ih.cons e).trans List.perm_middle.symm
    · split
      · exact .refl _
      · exact ih.cons e

/-- The exchanges that a sweep keeps stay in their order. -/
theorem sweep_sublist (m : Json) (l : List (Entry α)) : (sweep m l).1.Sublist l := by
  induction l with
  | nil => exact .refl _
  | cons e rest ih =>
    rw [sweep]
    split
    · exact ih.cons_cons e
    · split
      · exact List.sublist_cons_self e rest
      · exact ih.cons e

/-- An exchange that a sweep ends has decided on the message. -/
theorem decide?_of_mem_sweep {m : Json} {l : List (Entry α)} {e : Entry α} {r : Resolution α}
    (h : (e, r) ∈ (sweep m l).2) : e.decide? m = some r := by
  induction l with
  | nil => exact absurd h List.not_mem_nil
  | cons d rest ih =>
    rw [sweep] at h
    split at h
    · exact ih h
    · next s hd =>
      split at h
      · obtain ⟨rfl, rfl⟩ := Prod.mk.inj (List.mem_singleton.mp h)
        exact hd
      · rcases List.mem_cons.mp h with heq | hrest
        · obtain ⟨rfl, rfl⟩ := Prod.mk.inj heq
          exact hd
        · exact ih hrest

/-- An exchange decides on a message unless it passes on it. -/
theorem Entry.decide?_eq_none_iff {e : Entry α} {m : Json} :
    e.decide? m = none ↔ e.matcher.verdict m = .pass := by
  rw [Entry.decide?]
  cases e.matcher.verdict m <;> simp

/-- A match is one of the matcher, with the transcript as it is. -/
theorem decide?_matched {e : Entry α} {m : Json} {a : Matched α}
    (h : e.decide? m = some (.matched a)) :
    e.matcher.accepts m ∧ a = ⟨e.matcher.answer m, m, e.transcript⟩ := by
  rw [Entry.decide?] at h
  cases hv : e.matcher.verdict m with
  | pass => simp [hv] at h
  | refuse => simp [hv] at h
  | accept =>
    simp only [hv, Option.some.injEq, Resolution.matched.injEq] at h
    refine ⟨?_, h.symm⟩
    rw [Matcher.verdict] at hv
    by_contra hacc
    split_ifs at hv

/-- A message fails an exchange by refusal only. -/
theorem decide?_failed {e : Entry α} {m : Json} {f : Failure}
    (h : e.decide? m = some (.failed f)) : f = ⟨.rejected, e.transcript⟩ := by
  rw [Entry.decide?] at h
  cases hv : e.matcher.verdict m with
  | pass => simp [hv] at h
  | accept => simp [hv] at h
  | refuse =>
    simp only [hv, Option.some.injEq, Resolution.failed.injEq] at h
    exact h.symm

namespace Correlator

/-! ### Sound correlators -/

/-- Every exchange is accounted for once, and an open one has the deadline that it was given. -/
structure Sound (c : Correlator α) : Prop where
  accounted : (c.pendingIds ++ c.outcomes.map Outcome.id).Perm (List.range c.next)
  deadline_eq : ∀ e ∈ c.entries, c.deadline? e.id = some e.deadline

/-- At the start there are no exchanges. -/
theorem sound_start (cap : Nat) : ({ cap := cap } : Correlator α).Sound :=
  ⟨.refl _, fun _ h => absurd h List.not_mem_nil⟩

/-- No outcome of an exchange is there exactly when none carries its id. -/
theorem outcome?_eq_none_iff {c : Correlator α} {id : Nat} :
    c.outcome? id = none ↔ id ∉ c.outcomes.map Outcome.id := by
  simp [outcome?, List.find?_eq_none]

/-- The outcome of an exchange carries its id. -/
theorem id_of_outcome? {c : Correlator α} {id : Nat} {o : Outcome α}
    (h : c.outcome? id = some o) : o.id = id := by
  simpa using List.find?_some h

section Sound

variable {c : Correlator α} (h : c.Sound)
include h

/-- No exchange is open and ended, or either of them twice. -/
theorem Sound.nodup : (c.pendingIds ++ c.outcomes.map Outcome.id).Nodup :=
  h.accounted.nodup_iff.mpr List.nodup_range

/-- No exchange is open twice. -/
theorem Sound.pending_nodup : c.pendingIds.Nodup :=
  (List.nodup_append.mp h.nodup).1

/-- None has ended twice. -/
theorem Sound.outcomes_nodup : (c.outcomes.map Outcome.id).Nodup :=
  (List.nodup_append.mp h.nodup).2.1

/-- The exchanges that are registered are open or have ended. -/
theorem Sound.mem_or_mem_iff {id : Nat} :
    id ∈ c.pendingIds ∨ id ∈ c.outcomes.map Outcome.id ↔ id < c.next := by
  rw [← List.mem_append, h.accounted.mem_iff, List.mem_range]

/-- An exchange is open exactly when it was registered and has no outcome. -/
theorem Sound.mem_pending_iff {id : Nat} :
    id ∈ c.pendingIds ↔ id < c.next ∧ c.outcome? id = none := by
  rw [outcome?_eq_none_iff, ← h.mem_or_mem_iff]
  constructor
  · intro hp
    exact ⟨.inl hp, fun ho => (List.nodup_append.mp h.nodup).2.2 id hp id ho rfl⟩
  · rintro ⟨hp | ho, hn⟩
    · exact hp
    · exact absurd ho hn

/-- Open exchanges are registered. -/
theorem Sound.lt_of_pending {id : Nat} (hp : id ∈ c.pendingIds) : id < c.next :=
  (h.mem_pending_iff.mp hp).1

/-- They have no outcome. -/
theorem Sound.outcome?_of_pending {id : Nat} (hp : id ∈ c.pendingIds) : c.outcome? id = none :=
  (h.mem_pending_iff.mp hp).2

/-- Those that have one are registered. -/
theorem Sound.lt_of_outcome? {id : Nat} {o : Outcome α} (ho : c.outcome? id = some o) :
    id < c.next := by
  refine h.mem_or_mem_iff.mp (.inr ?_)
  exact List.mem_map.mpr ⟨o, List.mem_of_find?_eq_some ho, id_of_outcome? ho⟩

/-- Each outcome is the outcome of its exchange. -/
theorem Sound.outcome?_of_mem {o : Outcome α} (ho : o ∈ c.outcomes) :
    c.outcome? o.id = some o := by
  cases hf : c.outcome? o.id with
  | none => exact absurd (List.mem_map_of_mem ho) (outcome?_eq_none_iff.mp hf)
  | some p =>
    have hp := List.mem_of_find?_eq_some hf
    exact congrArg some (List.inj_on_of_nodup_map h.outcomes_nodup hp ho (id_of_outcome? hf))

/-- The open exchange of an id is the one in the registry. -/
theorem Sound.pending?_eq_some_of_mem {e : Entry α} (he : e ∈ c.entries) :
    c.pending? e.id = some e := by
  cases hf : c.pending? e.id with
  | none => exact absurd (List.find?_eq_none.mp hf e he) (by simp)
  | some d =>
    have hd := List.mem_of_find?_eq_some hf
    have hid : d.id = e.id := by simpa using List.find?_some hf
    exact congrArg some (List.inj_on_of_nodup_map h.pending_nodup hd he hid)

end Sound

/-- An id has an open exchange exactly when it is in the registry. -/
theorem pending?_eq_none_iff {c : Correlator α} {id : Nat} :
    c.pending? id = none ↔ id ∉ c.pendingIds := by
  rw [pending?]
  simp [pendingIds, List.find?_eq_none]

/-- An open exchange that is found by its number is there. -/
theorem mem_of_pending?_eq_some {c : Correlator α} {id : Nat} {e : Entry α}
    (h : c.pending? id = some e) : e ∈ c.entries ∧ e.id = id :=
  ⟨List.mem_of_find?_eq_some h, by simpa using List.find?_some h⟩

/-- An outcome stays when more exchanges end. -/
theorem outcome?_of_prefix {c c' : Correlator α} (h : c.outcomes <+: c'.outcomes) {id : Nat}
    {o : Outcome α} (ho : c.outcome? id = some o) : c'.outcome? id = some o := by
  obtain ⟨more, heq⟩ := h
  rw [outcome?] at ho ⊢
  rw [← heq, List.find?_append, ho, Option.some_or]

/-- A deadline stays when more exchanges are registered. -/
theorem deadline?_of_prefix {c c' : Correlator α} (h : c.deadlines <+: c'.deadlines)
    {id deadline : Nat} (hd : c.deadline? id = some deadline) :
    c'.deadline? id = some deadline := by
  obtain ⟨more, heq⟩ := h
  obtain ⟨hlt, -⟩ := List.getElem?_eq_some_iff.mp hd
  rw [deadline?] at hd ⊢
  rw [← heq, List.getElem?_append_left hlt, hd]

/-! ### Ending exchanges -/

/-- The correlator `c'` is what `c` becomes when the exchanges of `ended` end with those
outcomes; the others stay open, in their order and on the terms that they were registered on. -/
structure Ends (c : Correlator α) (ended : List (Outcome α)) (c' : Correlator α) : Prop where
  cap_eq : c'.cap = c.cap
  deadlines_eq : c'.deadlines = c.deadlines
  outcomes_eq : c'.outcomes = c.outcomes ++ ended
  pending_perm : c.pendingIds.Perm (ended.map Outcome.id ++ c'.pendingIds)
  terms_sublist : (c'.entries.map Entry.terms).Sublist (c.entries.map Entry.terms)

/-- No exchange ends. -/
theorem Ends.refl (c : Correlator α) : c.Ends [] c :=
  ⟨rfl, rfl, (List.append_nil _).symm, .refl _, .refl _⟩

/-- Some exchanges end, and then others. -/
theorem Ends.trans {c₁ c₂ c₃ : Correlator α} {xs ys : List (Outcome α)} (h₁ : c₁.Ends xs c₂)
    (h₂ : c₂.Ends ys c₃) : c₁.Ends (xs ++ ys) c₃ where
  cap_eq := h₂.cap_eq.trans h₁.cap_eq
  deadlines_eq := h₂.deadlines_eq.trans h₁.deadlines_eq
  outcomes_eq := by rw [h₂.outcomes_eq, h₁.outcomes_eq, List.append_assoc]
  pending_perm := by
    rw [List.map_append, List.append_assoc]
    exact h₁.pending_perm.trans (h₂.pending_perm.append_left _)
  terms_sublist := h₂.terms_sublist.trans h₁.terms_sublist

section Ends

variable {c c' : Correlator α} {ended : List (Outcome α)} (h : c.Ends ended c')
include h

/-- No exchange is registered meanwhile. -/
theorem Ends.next_eq : c'.next = c.next :=
  congrArg List.length h.deadlines_eq

/-- Nor is one opened. -/
theorem Ends.mem_pending {id : Nat} (hp : id ∈ c'.pendingIds) : id ∈ c.pendingIds :=
  h.pending_perm.mem_iff.mpr (List.mem_append_right _ hp)

/-- An exchange that ends was open. -/
theorem Ends.mem_pending_of_mem {o : Outcome α} (ho : o ∈ ended) : o.id ∈ c.pendingIds :=
  h.pending_perm.mem_iff.mpr (List.mem_append_left _ (List.mem_map_of_mem ho))

/-- An outcome that has been written is never changed. -/
theorem Ends.outcome?_mono {id : Nat} {o : Outcome α} (ho : c.outcome? id = some o) :
    c'.outcome? id = some o :=
  outcome?_of_prefix (h.outcomes_eq ▸ List.prefix_append _ _) ho

/-- What is open afterwards was open before, on the same terms. -/
theorem Ends.terms_mem {e : Entry α} (he : e ∈ c'.entries) :
    ∃ d ∈ c.entries, d.terms = e.terms :=
  List.mem_map.mp (h.terms_sublist.subset (List.mem_map_of_mem he))

/-- Ending exchanges keeps every exchange accounted for. -/
theorem Sound.of_ends (hs : c.Sound) : c'.Sound where
  accounted := by
    have hsplit : (c.pendingIds ++ c.outcomes.map Outcome.id).Perm
        (c'.pendingIds ++ c'.outcomes.map Outcome.id) := by
      rw [h.outcomes_eq, List.map_append]
      refine (h.pending_perm.append_right _).trans ?_
      rw [List.append_assoc]
      refine List.perm_append_comm.trans ?_
      rw [List.append_assoc]
    rw [h.next_eq]
    exact hsplit.symm.trans hs.accounted
  deadline_eq e he := by
    obtain ⟨d, hd, hterms⟩ := h.terms_mem he
    obtain ⟨hid, -, hdl⟩ : d.id = e.id ∧ d.matcher = e.matcher ∧ d.deadline = e.deadline := by
      simpa [Entry.terms] using hterms
    have := hs.deadline_eq d hd
    rw [hid, hdl] at this
    rw [deadline?] at this ⊢
    rw [h.deadlines_eq, this]

/-- A new outcome is the outcome of its exchange. -/
theorem Ends.outcome?_of_mem (hs : c.Sound) {o : Outcome α} (ho : o ∈ ended) :
    c'.outcome? o.id = some o :=
  (hs.of_ends h).outcome?_of_mem (h.outcomes_eq ▸ List.mem_append_right _ ho)

/-- An outcome that is there afterwards was there before, or is one of the new ones. -/
theorem Ends.outcome?_cases {id : Nat} {o : Outcome α} (ho : c'.outcome? id = some o) :
    c.outcome? id = some o ∨ c.outcome? id = none ∧ o ∈ ended ∧ o.id = id := by
  rw [outcome?] at ho
  rw [h.outcomes_eq, List.find?_append] at ho
  rcases Option.or_eq_some_iff.mp ho with hold | ⟨hnone, hnew⟩
  · exact .inl hold
  · exact .inr ⟨hnone, List.mem_of_find?_eq_some hnew, by simpa using List.find?_some hnew⟩

end Ends

/-- A new exchange takes the next number. -/
@[simp] theorem next_register (c : Correlator α) (now : Nat) (m : Matcher α) (timeout : Nat) :
    (c.register now m timeout).next = c.next + 1 := by
  simp [next, register]

/-- It is open, behind the others. -/
@[simp] theorem pendingIds_register (c : Correlator α) (now : Nat) (m : Matcher α)
    (timeout : Nat) : (c.register now m timeout).pendingIds = c.pendingIds ++ [c.next] := by
  simp [pendingIds, register]

/-- Registering one more exchange keeps every exchange accounted for. -/
theorem Sound.register {c : Correlator α} (h : c.Sound) (now : Nat) (m : Matcher α)
    (timeout : Nat) : (c.register now m timeout).Sound where
  accounted := by
    rw [next_register, pendingIds_register, List.range_succ, List.append_assoc]
    refine (List.perm_append_comm.append_left _).trans ?_
    rw [← List.append_assoc]
    exact h.accounted.append_right _
  deadline_eq e he := by
    rw [deadline?, Correlator.register]
    rcases List.mem_append.mp he with hold | hnew
    · have hd := h.deadline_eq e hold
      rw [deadline?] at hd
      obtain ⟨hlt, -⟩ := List.getElem?_eq_some_iff.mp hd
      rw [List.getElem?_append_left hlt, hd]
    · obtain rfl := List.mem_singleton.mp hnew
      simp [next]

/-! ### Writing outcomes -/

/-- An exchange without an outcome gets the one that is assigned. -/
theorem assign_of_none {c : Correlator α} {id : Nat} (h : c.outcome? id = none) (now : Nat)
    (r : Resolution α) :
    c.assign now id r = { c with outcomes := c.outcomes ++ [⟨id, now, r⟩] } := by
  simp [assign, h]

/-- Outcomes of different exchanges that have none yet are all written. -/
theorem assignAll_of_none {now : Nat} {ended : List (Entry α × Resolution α)}
    {c : Correlator α} (hnew : ∀ p ∈ ended, c.outcome? p.1.id = none)
    (hnd : (ended.map (·.1.id)).Nodup) :
    c.assignAll now ended =
      { c with outcomes := c.outcomes ++ ended.map fun p => ⟨p.1.id, now, p.2⟩ } := by
  induction ended generalizing c with
  | nil => simp [assignAll]
  | cons p rest ih =>
    obtain ⟨hhead, htail⟩ := List.nodup_cons.mp hnd
    have hfirst := assign_of_none (hnew p List.mem_cons_self) now p.2
    change (c.assign now p.1.id p.2).assignAll now rest = _
    rw [hfirst, ih _ htail]
    · simp
    · intro q hq
      have hqc := hnew q (List.mem_cons_of_mem _ hq)
      rw [outcome?_eq_none_iff] at hqc ⊢
      have hne : q.1.id ≠ p.1.id := fun heq => hhead (List.mem_map.mpr ⟨q, hq, heq⟩)
      simpa [hne] using hqc

/-- Taking some open exchanges out of the registry and writing their outcomes ends them. -/
theorem ends_of_split {c : Correlator α} (h : c.Sound) (now : Nat) (kept : List (Entry α))
    (ended : List (Entry α × Resolution α))
    (hperm : c.pendingIds.Perm (ended.map (·.1.id) ++ kept.map Entry.id))
    (hsub : (kept.map Entry.terms).Sublist (c.entries.map Entry.terms)) :
    c.Ends (ended.map fun p => ⟨p.1.id, now, p.2⟩)
      ({ c with entries := kept }.assignAll now ended) := by
  have hnd : (ended.map (·.1.id)).Nodup :=
    (List.nodup_append.mp (hperm.nodup_iff.mp h.pending_nodup)).1
  have hnew :
      ∀ p ∈ ended, ({ c with entries := kept } : Correlator α).outcome? p.1.id = none := by
    intro p hp
    have hp : p.1.id ∈ c.pendingIds := by
      refine hperm.mem_iff.mpr (List.mem_append_left _ ?_)
      exact List.mem_map_of_mem (f := (·.1.id)) hp
    exact h.outcome?_of_pending hp
  rw [assignAll_of_none hnew hnd]
  refine ⟨rfl, rfl, rfl, ?_, hsub⟩
  simpa [Function.comp_def, pendingIds] using hperm

/-! ### What each operation ends -/

/-- The exchanges that a message ends, with how each of them ends. -/
def decided (c : Correlator α) (m : Json) : List (Entry α × Resolution α) :=
  (sweep m (c.entries.map (Entry.record c.cap m))).2

/-- What a message ends is an open exchange, which has decided on the message. -/
theorem mem_decided {c : Correlator α} {m : Json} {e : Entry α} {r : Resolution α}
    (h : (e, r) ∈ c.decided m) :
    ∃ d ∈ c.entries, e = d.record c.cap m ∧ e.decide? m = some r := by
  have hmem : e ∈ c.entries.map (Entry.record c.cap m) :=
    (sweep_perm m _).mem_iff.mpr (List.mem_append_left _ (List.mem_map_of_mem h))
  obtain ⟨d, hd, rfl⟩ := List.mem_map.mp hmem
  exact ⟨d, hd, rfl, decide?_of_mem_sweep h⟩

/-- A message ends the exchanges that decide on it, up to the first that stops it. -/
theorem ends_dispatch {c : Correlator α} (h : c.Sound) (now : Nat) (m : Json) :
    c.Ends ((c.decided m).map fun p => ⟨p.1.id, now, p.2⟩) (c.dispatch now m).1 := by
  refine ends_of_split h now (sweep m (c.entries.map (Entry.record c.cap m))).1 _ ?_ ?_
  · have hperm := (sweep_perm m (c.entries.map (Entry.record c.cap m))).map Entry.id
    simpa [pendingIds, decided, Function.comp_def] using hperm
  · have hsub := (sweep_sublist m (c.entries.map (Entry.record c.cap m))).map Entry.terms
    simpa [Function.comp_def] using hsub

/-- Taking one exchange out of the registry leaves the others in their order. -/
theorem pending_withdraw {c : Correlator α} (h : c.Sound) {e : Entry α} (he : e ∈ c.entries) :
    c.pendingIds.Perm (e.id :: (c.withdraw e.id).pendingIds) := by
  have hfilter : (c.withdraw e.id).pendingIds = c.pendingIds.erase e.id := by
    rw [h.pending_nodup.erase_eq_filter]
    simp [withdraw, pendingIds, List.filter_map, Function.comp_def]
  rw [hfilter]
  exact List.perm_cons_erase (List.mem_map_of_mem he)

/-- An open exchange that is taken out and given an outcome ends with it. -/
theorem ends_withdraw_assign {c : Correlator α} (h : c.Sound) (now : Nat) {e : Entry α}
    (he : e ∈ c.entries) (r : Resolution α) :
    c.Ends [⟨e.id, now, r⟩] ((c.withdraw e.id).assign now e.id r) := by
  refine ends_of_split h now (c.withdraw e.id).entries [(e, r)] ?_ ?_
  · exact pending_withdraw h he
  · exact List.filter_sublist.map _

/-- An exchange that fails ends. -/
theorem ends_fail {c : Correlator α} (h : c.Sound) (now : Nat) {e : Entry α}
    (he : e ∈ c.entries) (cause : Cause) :
    c.Ends [⟨e.id, now, e.failure cause⟩] (c.fail now e.id cause).1 := by
  rw [fail, h.pending?_eq_some_of_mem he]
  exact ends_withdraw_assign h now he _

/-- Failing an exchange that is not open does nothing. -/
theorem fail_of_not_pending {c : Correlator α} {id : Nat} (hp : id ∉ c.pendingIds) (now : Nat)
    (cause : Cause) : c.fail now id cause = (c, false) := by
  rw [fail, pending?_eq_none_iff.mpr hp]

/-- So does one that is resolved. -/
theorem ends_resolve {c : Correlator α} (h : c.Sound) (now : Nat) {e : Entry α}
    (he : e ∈ c.entries) (r : Resolution α) :
    c.Ends [⟨e.id, now, r⟩] (c.resolve now e.id r).1 :=
  ends_withdraw_assign h now he r

/-- Ending an exchange that has ended does nothing. -/
theorem resolve_of_not_pending {c : Correlator α} (h : c.Sound) {id : Nat} (hlt : id < c.next)
    (hp : id ∉ c.pendingIds) (now : Nat) (r : Resolution α) :
    c.resolve now id r = (c, false) := by
  obtain ⟨o, ho⟩ := Option.ne_none_iff_exists'.mp fun ho => hp (h.mem_pending_iff.mpr ⟨hlt, ho⟩)
  have hwithdraw : c.withdraw id = c := by
    rw [withdraw, List.filter_eq_self.mpr]
    intro e he
    have : e.id ≠ id := fun heq => hp (heq ▸ List.mem_map_of_mem he)
    simpa using this
  rw [resolve, hwithdraw, ho]
  simp [assign, ho]

/-- All open exchanges end when all fail. -/
theorem ends_failAll {c : Correlator α} (h : c.Sound) (now : Nat) (cause : Cause) :
    c.Ends (c.entries.map fun e => ⟨e.id, now, e.failure cause⟩) (c.failAll now cause).1 := by
  have hends := ends_of_split h now [] (c.entries.map fun e => (e, e.failure cause))
    (by simp [pendingIds, Function.comp_def]) (List.nil_sublist _)
  rw [List.map_map] at hends
  exact hends

/-- An exchange that expires ends with a timeout. -/
theorem ends_expire {c : Correlator α} (h : c.Sound) (now : Nat) {e : Entry α}
    (he : e ∈ c.entries) : c.Ends [⟨e.id, now, e.failure .timeout⟩] (c.expire now e.id) :=
  ends_fail h now he .timeout

/-- An exchange that is not open cannot run into its deadline any more. -/
theorem expire_of_not_pending {c : Correlator α} {id : Nat} (hp : id ∉ c.pendingIds)
    (now : Nat) : c.expire now id = c := by
  rw [expire, fail_of_not_pending hp]

/-- Failing an exchange takes it out of the registry. -/
theorem entries_fail (c : Correlator α) (now id : Nat) (cause : Cause) :
    (c.fail now id cause).1.entries = c.entries.filter (·.id != id) := by
  cases he : c.pending? id with
  | none =>
    have hnot : id ∉ c.pendingIds := pending?_eq_none_iff.mp he
    rw [fail_of_not_pending hnot]
    refine (List.filter_eq_self.mpr fun e hmem => ?_).symm
    simpa using fun heq : e.id = id => hnot (heq ▸ List.mem_map_of_mem hmem)
  | some e =>
    rw [fail, he]
    dsimp only
    rw [assign]
    split <;> rfl

/-- Only the exchange that fails is closed. -/
theorem mem_entries_fail {c : Correlator α} {now id : Nat} {cause : Cause} {e : Entry α} :
    e ∈ (c.fail now id cause).1.entries ↔ e ∈ c.entries ∧ e.id ≠ id := by
  rw [entries_fail, List.mem_filter, bne_iff_ne]

/-- Several open exchanges, each at its deadline. -/
theorem ends_foldl_expire {l : List (Entry α)} {c : Correlator α} (h : c.Sound)
    (hl : ∀ e ∈ l, e ∈ c.entries) (hnd : (l.map Entry.id).Nodup) :
    c.Ends (l.map fun e => ⟨e.id, e.deadline, e.failure .timeout⟩)
      (l.foldl (fun c e => c.expire e.deadline e.id) c) := by
  induction l generalizing c with
  | nil => exact .refl c
  | cons e rest ih =>
    obtain ⟨hhead, htail⟩ := List.nodup_cons.mp hnd
    have hfirst := ends_expire h e.deadline (hl e List.mem_cons_self)
    -- the exchanges that are still to expire are untouched by the first
    have hrest : ∀ d ∈ rest, d ∈ (c.expire e.deadline e.id).entries := by
      intro d hd
      have hne : d.id ≠ e.id := fun heq => hhead (heq ▸ List.mem_map_of_mem hd)
      exact mem_entries_fail.mpr ⟨hl d (List.mem_cons_of_mem _ hd), hne⟩
    exact hfirst.trans (ih (h.of_ends hfirst) hrest htail)

/-- An open exchange is due once its deadline has come. -/
theorem mem_due {c : Correlator α} {limit : Nat} {e : Entry α} :
    e ∈ c.due limit ↔ e ∈ c.entries ∧ e.deadline ≤ limit := by
  simp [due, List.mem_mergeSort]

/-- None is due twice. -/
theorem due_nodup {c : Correlator α} (h : c.Sound) (limit : Nat) :
    ((c.due limit).map Entry.id).Nodup := by
  have hperm := (List.mergeSort_perm (c.entries.filter (·.deadline ≤ limit))
    fun a b => a.deadline ≤ b.deadline).map Entry.id
  exact hperm.nodup_iff.mpr (h.pending_nodup.sublist (List.filter_sublist.map _))

/-- Letting time pass ends the exchanges whose deadline comes, each at its deadline. -/
theorem ends_elapse {c : Correlator α} (h : c.Sound) (limit : Nat) :
    c.Ends ((c.due limit).map fun e => ⟨e.id, e.deadline, e.failure .timeout⟩)
      (c.elapse limit) :=
  ends_foldl_expire h (fun _ he => (mem_due.mp he).1) (due_nodup h limit)

end Correlator

end VenueLink.Exchange

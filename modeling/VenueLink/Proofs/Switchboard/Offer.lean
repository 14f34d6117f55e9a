import VenueLink.Proofs.Switchboard.Fate

/-!
# The first exchange that does not pass on a message

A message is offered to the open exchanges in the order of registration. The first one that does
not pass on it ends with it, whatever the later ones make of it, and its caller is woken.

## Main results

* `called_dispatch`: the caller of an exchange that ends with a message has its turn ahead of
  it.
* `tellsInTime_of_first`: how the first exchange that does not pass on a message ends, and what
  its caller reports.
-/

namespace VenueLink

open Exchange Correlator

variable {α ρ : Type}

namespace Exchange

/-- The first exchange that decides on a message ends with it. -/
theorem mem_sweep_of_first {m : Json} {pre rest : List (Entry α)} {e : Entry α}
    {r : Resolution α} (hpass : ∀ d ∈ pre, d.decide? m = none) (hr : e.decide? m = some r) :
    (e, r) ∈ (sweep m (pre ++ e :: rest)).2 := by
  induction pre with
  | nil =>
    rw [List.nil_append, sweep, hr]
    dsimp only
    split
    · exact List.mem_singleton.mpr rfl
    · exact List.mem_cons_self
  | cons d pre ih =>
    rw [List.cons_append, sweep, hpass d List.mem_cons_self]
    exact ih fun b hb => hpass b (List.mem_cons_of_mem d hb)

/-- A message that the matcher lets pass does not end the exchange. -/
theorem decide?_record_eq_none {cap : Nat} {m : Json} {e : Entry α}
    (h : e.matcher.verdict m = .pass) : (e.record cap m).decide? m = none := by
  rw [Entry.decide?_eq_none_iff, matcher_record, h]

/-- It ends the first exchange that does not let it pass. -/
theorem Correlator.mem_decided_of_first {c : Correlator α} {m : Json}
    {pre rest : List (Entry α)} {e : Entry α} (hentries : c.entries = pre ++ e :: rest)
    (hpass : ∀ d ∈ pre, d.matcher.verdict m = .pass) {r : Resolution α}
    (hr : (e.record c.cap m).decide? m = some r) : (e.record c.cap m, r) ∈ c.decided m := by
  rw [decided, hentries, List.map_append, List.map_cons]
  refine mem_sweep_of_first (fun b hb => ?_) hr
  obtain ⟨d, hd, rfl⟩ := List.mem_map.mp hb
  exact decide?_record_eq_none (hpass d hd)

end Exchange

namespace Switchboard

/-- The first exchange that does not pass on a message ends with it. -/
theorem outcome?_dispatch {s : Switchboard α ρ} (hs : s.correlator.Sound) {m : Json}
    {e : Entry α} {r : Resolution α} (hmem : (e, r) ∈ s.correlator.decided m) :
    (s.dispatch m).correlator.outcome? e.id = some ⟨e.id, s.now, r⟩ := by
  rw [correlator_dispatch]
  exact (ends_dispatch hs s.now m).outcome?_of_mem hs (o := ⟨e.id, s.now, r⟩)
    (List.mem_map.mpr ⟨(e, r), hmem, rfl⟩)

/-- A message that is dispatched moves no caller. -/
theorem callers_dispatch (s : Switchboard α ρ) (m : Json) :
    (s.dispatch m).callers = s.callers :=
  (aside_foldl_wakeWaiting _ _).callers_eq

/-- A caller that is woken has its turn ahead. -/
theorem mem_ready_wakeWhere {s : Switchboard α ρ} {p : Caller α ρ → Bool} {c : Caller α ρ}
    (hc : c ∈ s.callers) (hp : p c = true) : .caller c.id ∈ (s.wakeWhere p).ready := by
  have hfold : ∀ (l : List (Caller α ρ)) (s : Switchboard α ρ), c ∈ l →
      .caller c.id ∈ (l.foldl (fun s c => s.enqueue (.caller c.id)) s).ready := by
    intro l
    induction l with
    | nil => exact fun _ h => absurd h List.not_mem_nil
    | cons d rest ih =>
      intro s hmem
      rcases List.mem_cons.mp hmem with rfl | hrest
      · exact (aside_foldl_enqueue rest _).mem_ready (s.mem_enqueue (.caller c.id))
      · exact ih _ hrest
  exact hfold _ s (List.mem_filter.mpr ⟨hc, hp⟩)

/-- So has one whose exchange is among those that have ended. -/
theorem mem_ready_foldl_wakeWaiting {s : Switchboard α ρ} {c : Caller α ρ} (hc : c ∈ s.callers)
    {ex : Nat} (he : c.goal.exchange? = some ex) (hstage : c.stage = .waiting) {l : List Nat}
    (hl : ex ∈ l) : .caller c.id ∈ (l.foldl wakeWaiting s).ready := by
  induction l generalizing s with
  | nil => exact absurd hl List.not_mem_nil
  | cons id rest ih =>
    have hwake := s.aside_wakeWhere fun c => c.stage = .waiting && c.goal.exchange? = some id
    rcases List.mem_cons.mp hl with rfl | hrest
    · refine (aside_foldl_wakeWaiting rest _).mem_ready (mem_ready_wakeWhere hc ?_)
      simp [hstage, he]
    · exact ih (s := s.wakeWaiting id) (hwake.callers_eq ▸ hc) hrest

/-- The caller of an exchange that ends with a message has its turn ahead of it, if it waits. -/
theorem called_dispatch {s : Switchboard α ρ} {m : Json} {e : Entry α} {r : Resolution α}
    (hmem : (e, r) ∈ s.correlator.decided m) {c : Caller α ρ} (hc : c ∈ s.callers)
    (he : c.goal.exchange? = some e.id) : (s.dispatch m).Called c := by
  intro hstage
  exact mem_ready_foldl_wakeWaiting (s := { s with
    correlator := (s.correlator.dispatch s.now m).1
    wire :=
      { s.wire with pruned := s.wire.pruned ++ (s.correlator.dispatch s.now m).2.pruned } })
    hc he hstage (List.mem_map.mpr ⟨(e, r), hmem, rfl⟩)

/-- A message ends the first exchange that does not pass on it, and the caller of that exchange,
if it was the last one, reports how it ended. -/
theorem tellsInTime_of_first {s : Switchboard α ρ} (h : s.Orderly) {pre rest : List (Entry α)}
    {e : Entry α} (hentries : s.correlator.entries = pre ++ e :: rest) {m : Json}
    (hpass : ∀ d ∈ pre, d.matcher.verdict m = .pass) {r : Resolution α}
    (hr : (e.record s.correlator.cap m).decide? m = some r) {c : Caller α ρ}
    (hc : c ∈ s.callers) {spec : Spec α} {n : Nat} {f : Resolution α → ρ}
    (hg : c.goal = .exchange e.id spec n fun r => .report (f r)) (later : List (Event α ρ)) :
    (s.dispatch m).correlator.outcome? e.id = some ⟨e.id, s.now, r⟩ ∧
      (s.dispatch m).TellsInTime later c e.id (f r) := by
  have hid := Entry.id_record s.correlator.cap m e
  have hdec := Correlator.mem_decided_of_first hentries hpass hr
  have ho := outcome?_dispatch h.sound hdec
  have hcalled : (s.dispatch m).Called c := by
    refine called_dispatch hdec hc ?_
    rw [hid, hg, Goal.exchange?]
  rw [hid] at ho
  exact ⟨ho, tellsInTime_of_ended (s.keeps_dispatch m h).1 (s.callers_dispatch m ▸ hc) hg ho
    hcalled later⟩

end Switchboard

end VenueLink

import VenueLink.Proofs.Switchboard.Occurrence
import VenueLink.Proofs.Switchboard.Motion

/-!
# Watches over exchanges

Every open exchange is under a watch: its watch is about to go to sleep, or sleeps until the
deadline, or has woken up and yielded, or goes on to let the exchange expire. So where nothing
is left to do the watches of all open exchanges are asleep, and their deadlines are ahead.

## Main results

* `Turn.vigil`, `vigil_handle`: a turn and a signal give up no watch, and what is registered is
  watched.
* `Watched.occur`, `Watched.after`: every open exchange is under a watch after any events.
* `Watched.exists_timer`: where nothing is left to do the watch over an open exchange sleeps
  until its deadline.
-/

namespace VenueLink.Switchboard

open Exchange Correlator

variable {α ρ : Type} {s s' s₁ s₂ s₃ : Switchboard α ρ}

/-- There is a watch over the exchange `id`, which has the deadline `deadline`. -/
def Overseen (s : Switchboard α ρ) (id deadline : Nat) : Prop :=
  .watch id ∈ s.ready ∨ (∃ t ∈ s.timers, t.alarm = .watch id ∧ t.due = deadline) ∨
    id ∈ s.yielded ∨ .expire id ∈ s.ready

/-- Every open exchange is under a watch. -/
def Watched (s : Switchboard α ρ) : Prop :=
  ∀ e ∈ s.correlator.entries, s.Overseen e.id e.deadline

/-- At the start there is no exchange to watch over. -/
theorem watched_start (cap : Nat) (manual : Bool) :
    (start cap manual : Switchboard α ρ).Watched :=
  fun _ he => absurd he List.not_mem_nil

/-- More tasks may be ready, more timers set, and more watches have yielded. -/
theorem Overseen.mono {id deadline : Nat} (h : s.Overseen id deadline)
    (hready : ∀ t ∈ s.ready, t ≠ .signals → (∀ k, t ≠ .caller k) → t ∈ s'.ready)
    (htimers : ∀ t ∈ s.timers, t.alarm.caller? = none → t ∈ s'.timers)
    (hyielded : s.yielded ⊆ s'.yielded) : s'.Overseen id deadline := by
  rcases h with hwatch | ⟨t, ht, ha, hdue⟩ | hmem | hexpire
  · exact .inl (hready _ hwatch (by simp) (by simp))
  · exact .inr (.inl ⟨t, htimers t ht (by rw [ha, Alarm.caller?]), ha, hdue⟩)
  · exact .inr (.inr (.inl (hyielded hmem)))
  · exact .inr (.inr (.inr (hready _ hexpire (by simp) (by simp))))

/-- Between `s` and `s'` no watch is given up, and every exchange that is registered comes under
one. -/
structure Vigil (s s' : Switchboard α ρ) : Prop where
  overseen : ∀ id deadline, s.Overseen id deadline → s'.Overseen id deadline
  entries : ∀ e ∈ s'.correlator.entries,
    (∃ d ∈ s.correlator.entries, d.id = e.id ∧ d.deadline = e.deadline) ∨
      s'.Overseen e.id e.deadline

/-- Where nothing happens no watch is given up. -/
theorem Vigil.refl (s : Switchboard α ρ) : Vigil s s where
  overseen _ _ h := h
  entries e he := .inl ⟨e, he, rfl, rfl⟩

/-- Two stretches one after the other. -/
theorem Vigil.trans (h₁ : Vigil s₁ s₂) (h₂ : Vigil s₂ s₃) : Vigil s₁ s₃ where
  overseen id deadline h := h₂.overseen id deadline (h₁.overseen id deadline h)
  entries e he := by
    rcases h₂.entries e he with ⟨d, hd, hid, hdeadline⟩ | hnew
    · rw [← hid, ← hdeadline]
      exact (h₁.entries d hd).imp_right (h₂.overseen _ _)
    · exact .inr hnew

/-- Then every open exchange stays under a watch. -/
theorem Vigil.watched (h : Vigil s s') (hw : s.Watched) : s'.Watched := by
  intro e he
  rcases h.entries e he with ⟨d, hd, hid, hdeadline⟩ | hnew
  · rw [← hid, ← hdeadline]
    exact h.overseen _ _ (hw d hd)
  · exact hnew

/-- No exchange is registered, and no watch touched. -/
theorem vigil_of_subset
    (hready : ∀ t ∈ s.ready, t ≠ .signals → (∀ k, t ≠ .caller k) → t ∈ s'.ready)
    (htimers : ∀ t ∈ s.timers, t.alarm.caller? = none → t ∈ s'.timers)
    (hyielded : s.yielded ⊆ s'.yielded)
    (hentries : ∀ e ∈ s'.correlator.entries,
      ∃ d ∈ s.correlator.entries, d.id = e.id ∧ d.deadline = e.deadline) : Vigil s s' where
  overseen _ _ h := h.mono hready htimers hyielded
  entries e he := .inl (hentries e he)

/-- A change to what has nothing to do with exchanges. -/
theorem vigil_of_eq (hcorrelator : s'.correlator = s.correlator) (hready : s'.ready = s.ready)
    (htimers : s'.timers = s.timers) (hyielded : s'.yielded = s.yielded) : Vigil s s' :=
  vigil_of_subset (fun _ ht _ _ => hready ▸ ht) (fun _ ht _ => htimers ▸ ht)
    (fun _ hid => hyielded ▸ hid) fun e he => ⟨e, hcorrelator ▸ he, rfl, rfl⟩

/-- What leaves everything aside gives up no watch. -/
theorem Aside.vigil {new : List Nat} (h : s.Aside new s') : Vigil s s' :=
  vigil_of_subset (fun _ ht _ _ => h.mem_ready ht) (fun _ ht _ => h.mem_timers ht)
    (fun _ hid => h.yielded_eq ▸ hid) fun e he => ⟨e, h.correlator_eq ▸ he, rfl, rfl⟩

/-- Exchanges end. -/
theorem vigil_of_entries {c : Correlator α}
    (h : ∀ e ∈ c.entries, ∃ d ∈ s.correlator.entries, d.id = e.id ∧ d.deadline = e.deadline) :
    Vigil s { s with correlator := c } :=
  vigil_of_subset (fun _ ht _ _ => ht) (fun _ ht _ => ht) (fun _ hid => hid) h

/-- Nor does the end of exchanges. -/
theorem vigil_of_ends {ended : List (Outcome α)} {c : Correlator α}
    (h : s.correlator.Ends ended c) : Vigil s { s with correlator := c } :=
  vigil_of_entries fun e he => by
    obtain ⟨d, hd, hterms⟩ := h.terms_mem he
    obtain ⟨hid, -, hdeadline⟩ :
        d.id = e.id ∧ d.matcher = e.matcher ∧ d.deadline = e.deadline := by
      simpa [Entry.terms] using hterms
    exact ⟨d, hd, hid, hdeadline⟩

/-- Nor is a watch lost with the call to handle signals. -/
theorem vigil_hush (s : Switchboard α ρ) :
    Vigil s { s with ready := s.ready.filter (· ≠ .signals) } :=
  vigil_of_subset (fun t ht hne _ => List.mem_filter.mpr ⟨ht, by simpa using hne⟩)
    (fun _ ht _ => ht) (fun _ hid => hid) fun e he => ⟨e, he, rfl, rfl⟩

/-! ### Turns -/

/-- A timer that is taken back is not a watch's. -/
theorem vigil_disarm (s : Switchboard α ρ) (k : Nat) : Vigil s (s.disarm k) :=
  vigil_of_subset (fun _ ht _ _ => ht) (fun t ht ha => List.mem_filter.mpr ⟨ht, by simp [ha]⟩)
    (fun _ hid => hid) fun e he => ⟨e, he, rfl, rfl⟩

/-- Nor when a caller goes. -/
theorem vigil_dismiss (s : Switchboard α ρ) (k : Nat) : Vigil s (s.dismiss k) :=
  (s.vigil_disarm k).trans (vigil_of_eq rfl rfl rfl rfl)

/-- Nor when it fails its exchange. -/
theorem vigil_failExchange (s : Switchboard α ρ) (id : Nat) : Vigil s (s.failExchange id) :=
  vigil_of_entries fun e he => ⟨e, (mem_entries_fail.mp he).1, rfl, rfl⟩

/-- What a caller does for its exchange gives up no watch. -/
theorem Motion.vigil {k : Nat} {errand : Option (Nat × Spec α)} (h : Motion k errand s s') :
    Vigil s s' := by
  rcases h.aside_or with haside | rfl | ⟨ex, spec, -, hsend | rfl⟩
  · exact haside.vigil
  · exact s.vigil_disarm k
  · exact (aside_transmit hsend).vigil
  · exact s.vigil_failExchange ex

/-- A new exchange is under its watch. -/
theorem vigil_register (s : Switchboard α ρ) (m : Matcher α) (timeout : Nat) :
    Vigil s (s.register m timeout) where
  overseen _ _ h := h.mono (fun _ ht _ _ => (s.aside_watch _).mem_ready ht) (fun _ ht _ => ht)
    fun _ hid => hid
  entries e he := by
    rcases List.mem_append.mp he with hold | hnew
    · exact .inl ⟨e, hold, rfl, rfl⟩
    · obtain rfl := List.mem_singleton.mp hnew
      exact .inr (.inl (mem_enqueue _ _))

/-- A part of a turn. -/
theorem TurnPart.vigil {k : Nat} (h : TurnPart k s s') : Vigil s s' := by
  cases h with
  | motion h => exact h.vigil
  | enrol _ spec => exact s.vigil_register spec.matcher spec.timeout
  | guard _ duration =>
    exact vigil_of_subset (fun _ ht _ _ => ht) (fun _ ht _ => List.mem_append_left _ ht)
      (fun _ hid => hid) fun e he => ⟨e, he, rfl, rfl⟩
  | keep _ _ => exact vigil_of_eq rfl rfl rfl rfl
  | finish _ label r => exact (s.vigil_dismiss k).trans (vigil_of_eq rfl rfl rfl rfl)

/-- A turn. -/
theorem Turn.vigil {k : Nat} (h : Turn k s s') : Vigil s s' := by
  induction h with
  | refl => exact .refl s
  | tail _ hlast ih => exact ih.trans hlast.vigil

/-- A new number is given out. -/
theorem vigil_enlist (s : Switchboard α ρ) : Vigil s s.enlist :=
  vigil_of_eq rfl rfl rfl rfl

/-! ### Signals -/

section Sound

variable (hs : s.correlator.Sound)
include hs

/-- A signal is handled. -/
theorem vigil_handle (x : Signal) : Vigil s (s.handle x) := by
  have hfail : ∀ {s : Switchboard α ρ}, s.correlator.Sound → Vigil s s.failAll := fun hs =>
    (vigil_of_ends (ends_failAll hs _ .connectionLost)).trans
      (aside_foldl_wakeWaiting _ _).vigil
  simp only [handle]
  split
  · exact .refl s
  · cases x with
    | opened g =>
      exact (s.aside_greet.trans_nil ((aside_link _ _).trans_nil (aside_wakeWhere _ _))).vigil
    | message g payload =>
      have hwire := aside_wire { s with correlator := (s.correlator.dispatch s.now payload).1 }
        (w := { s.wire with
          pruned := s.wire.pruned ++ (s.correlator.dispatch s.now payload).2.pruned }) rfl
      exact (vigil_of_ends (ends_dispatch hs s.now payload)).trans
        (hwire.trans_nil (aside_foldl_wakeWaiting _ _)).vigil
    | closed g reason =>
      have hwake : s.Aside [] ({ s with link := s.link.closed g }.wakeOpening) :=
        (s.aside_link (s.link.closed g)).trans_nil (aside_wakeWhere _ _)
      exact hwake.vigil.trans (hfail (hwake.correlator_eq.symm ▸ hs))

/-- The signals that have been taken in are handled. -/
theorem vigil_sift : Vigil s s.sift := by
  have hfold : ∀ (l : List Signal) {s : Switchboard α ρ}, s.correlator.Sound →
      Vigil s (l.foldl handle s) := by
    intro l
    induction l with
    | nil => exact fun _ => .refl _
    | cons x rest ih =>
      exact fun hs => (vigil_handle hs x).trans (ih ((passes_handle hs x).sound hs))
  exact (s.aside_inbox []).vigil.trans (hfold s.inbox hs)

/-- And those that come in meanwhile. -/
theorem vigil_drain : Vigil s s.drain :=
  ((vigil_sift hs).trans (vigil_sift ((passes_sift hs).sound hs))).trans (vigil_hush _)

end Sound

/-! ### Events -/

/-- An action. -/
theorem vigil_act (ho : s.Orderly) (step : Step α ρ) : Vigil s (s.occur (.act step)) := by
  cases step with
  | wire c =>
    have hwire : s.Aside [] { s with wire := (s.wire.control c).1 } :=
      aside_wire s (sent_control s.wire c)
    exact (hwire.trans_nil (aside_hear _ _)).vigil
  | setHandshake handshake => exact (s.aside_link _).vigil
  | launch label n plan => exact s.vigil_enlist.trans (turn_pursue _ _ label plan).vigil
  | ensureOpen label tell => exact s.vigil_enlist.trans (s.turn_ensureOpen label tell).vigil
  | listen label m timeout tell =>
    exact (s.vigil_enlist.trans (s.enlist.vigil_register m timeout)).trans
      (TurnPart.keep _ rfl).vigil
  | cancel label =>
    change Vigil s (s.cancel label)
    rw [cancel]
    split
    · next c _ => exact (s.aside_stopAt c.stage).vigil.trans (vigil_dismiss _ c.id)
    · exact .refl s
  | transmit frame =>
    change Vigil s (s.act (.transmit frame)).1
    rw [act]
    cases ht : s.transmit none frame with
    | error e => exact .refl s
    | ok s' => exact (aside_transmit ht).vigil
  | pump => exact vigil_drain ho.sound
  | signal x => exact vigil_handle ho.sound x
  | advance duration => exact .refl s

/-- A task is taken up that is not the watch over the exchange. -/
theorem Overseen.pop {id deadline : Nat} {t : Task} {rest : List Task}
    (h : s.Overseen id deadline) (hr : s.ready = t :: rest) (hwatch : t ≠ .watch id)
    (hexpire : t ≠ .expire id) :
    ({ s with ready := rest } : Switchboard α ρ).Overseen id deadline := by
  rw [Overseen, hr, List.mem_cons, List.mem_cons] at h
  rcases h with (heq | hmem) | htimer | hyielded | heq | hmem
  · exact absurd heq.symm hwatch
  · exact .inl hmem
  · exact .inr (.inl htimer)
  · exact .inr (.inr (.inl hyielded))
  · exact absurd heq.symm hexpire
  · exact .inr (.inr (.inr hmem))

/-- A task is taken up that is no watch. -/
theorem vigil_pop {t : Task} {rest : List Task} (hr : s.ready = t :: rest)
    (hwatch : ∀ id, t ≠ .watch id) (hexpire : ∀ id, t ≠ .expire id) :
    Vigil s { s with ready := rest } where
  overseen id _ h := h.pop hr (hwatch id) (hexpire id)
  entries e he := .inl ⟨e, he, rfl, rfl⟩

/-- The watch over an exchange that gets on is asleep then, or has yielded. -/
theorem Watched.getOn (hw : s.Watched) (hs : s.correlator.Sound) {id : Nat} {rest : List Task}
    (hr : s.ready = .watch id :: rest) :
    (({ s with ready := rest } : Switchboard α ρ).getOn id).Watched := by
  intro e he
  rw [correlator_getOn] at he
  rw [Switchboard.getOn]
  by_cases hid : e.id = id
  · subst hid
    have hopen :
        ({ s with ready := rest } : Switchboard α ρ).correlator.pending? e.id = some e :=
      hs.pending?_eq_some_of_mem he
    rw [hopen]
    dsimp only
    split
    · next hlt =>
      refine .inr (.inl ⟨_, List.mem_append_right _ (List.mem_singleton.mpr rfl), rfl, ?_⟩)
      exact Nat.add_sub_of_le (Nat.le_of_lt hlt)
    · exact .inr (.inr (.inl (List.mem_append_right _ (List.mem_singleton.mpr rfl))))
  · have hpop := (hw e he).pop hr (fun heq => hid (Task.watch.inj heq).symm) (by simp)
    split
    · exact hpop
    · split
      · exact hpop.mono (fun _ ht _ _ => ht) (fun _ ht _ => List.mem_append_left _ ht)
          fun _ hid => hid
      · exact hpop.mono (fun _ ht _ _ => ht) (fun _ ht _ => ht) fun _ hid =>
          List.mem_append_left _ hid

/-- An exchange whose watch goes on is closed. -/
theorem Watched.expire (hw : s.Watched) {id : Nat} {rest : List Task}
    (hr : s.ready = .expire id :: rest) :
    (({ s with ready := rest } : Switchboard α ρ).perform (.expire id)).Watched := by
  have hclosed : ({ s with ready := rest, correlator := s.correlator.expire s.now id } :
      Switchboard α ρ).Watched := by
    intro e he
    obtain ⟨hold, hne⟩ := mem_entries_fail.mp he
    have hpop := (hw e hold).pop hr (by simp) fun heq => hne (Task.expire.inj heq).symm
    exact hpop.mono (fun _ ht _ _ => ht) (fun _ ht _ => ht) fun _ hid => hid
  exact (aside_wakeWhere _ _).vigil.watched hclosed

/-- What is done next gives up no watch over an open exchange. -/
theorem Watched.next (hw : s.Watched) (ho : s.Orderly) : (s.occur .next).Watched := by
  cases hr : s.ready with
  | nil =>
    rw [occur_next_of_nil hr]
    intro e he
    have hoverseen := hw e he
    rw [Overseen, hr] at hoverseen
    rcases hoverseen with hmem | htimer | hyielded | hmem
    · cases hmem
    · exact .inr (.inl htimer)
    · exact .inr (.inr (.inr (List.mem_map_of_mem (List.mem_reverse.mpr hyielded))))
    · cases hmem
  | cons t rest =>
    rw [occur_next_of_ready hr]
    cases t with
    | watch id => exact hw.getOn ho.sound hr
    | expire id => exact hw.expire hr
    | signals =>
      have hpop := vigil_pop hr (by simp) (by simp)
      exact (hpop.trans (vigil_drain (s := { s with ready := rest }) ho.sound)).watched hw
    | announce g =>
      have hpop := vigil_pop hr (by simp) (by simp)
      exact (hpop.trans (aside_hear _ [.opened g]).vigil).watched hw
    | caller k =>
      have hpop := vigil_pop hr (by simp) (by simp)
      rw [perform]
      split
      · next c _ => exact (hpop.trans (turn_tend _ c).vigil).watched hw
      · exact hpop.watched hw

/-- A watch that has slept until the deadline is about to get on. -/
theorem Ticked.watched {instant : Nat} (h : s.Ticked instant s') (hw : s.Watched) :
    s'.Watched := by
  intro e he
  rw [h.correlator_eq] at he
  rcases hw e he with hwatch | ⟨t, ht, ha, hdue⟩ | hyielded | hexpire
  · exact .inl (h.mem_ready hwatch)
  · by_cases hle : t.due ≤ s'.now
    · exact .inl (h.watches t ht hle e.id ha)
    · refine .inr (.inl ⟨t, ?_, ha, hdue⟩)
      rw [h.timers_eq]
      exact List.mem_filter.mpr ⟨ht, by simpa using hle⟩
  · exact .inr (.inr (.inl (h.yielded_eq ▸ hyielded)))
  · exact .inr (.inr (.inr (h.mem_ready hexpire)))

/-- Every event keeps all open exchanges under their watches. -/
theorem Watched.occur (hw : s.Watched) (ho : s.Orderly) (e : Event α ρ) :
    (s.occur e).Watched := by
  cases e with
  | act step => exact (vigil_act ho step).watched hw
  | next => exact hw.next ho
  | tick instant => exact (s.ticked_tick instant).watched hw
  | collect => exact (s.aside_inbox []).vigil.watched hw
  | hush => exact s.vigil_hush.watched hw

/-- Every open exchange is under a watch after any events. -/
theorem Watched.after (hw : s.Watched) (ho : s.Orderly) (events : List (Event α ρ)) :
    (s.after events).Watched := by
  induction events generalizing s with
  | nil => exact hw
  | cons e rest ih => exact ih (hw.occur ho e) (ho.after [e])

/-- Where nothing is left to do, the watch over an open exchange sleeps until its deadline. -/
theorem Watched.exists_timer (hw : s.Watched) (hq : s.Quiet) {e : Entry α}
    (he : e ∈ s.correlator.entries) :
    ∃ t ∈ s.timers, t.alarm = .watch e.id ∧ t.due = e.deadline := by
  have hoverseen := hw e he
  rw [Overseen, hq.1, hq.2] at hoverseen
  rcases hoverseen with hmem | htimer | hmem | hmem
  · cases hmem
  · exact htimer
  · cases hmem
  · cases hmem

end VenueLink.Switchboard

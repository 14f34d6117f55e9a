import VenueLink.Proofs.Exchange.Registry
import VenueLink.Proofs.Switchboard.Event

/-!
# The turn of a caller

While a caller gets on, nothing happens to the others: `Spares k sent s s'` says that between
`s` and `s'` only the caller `k` did anything, and that of the exchanges registered before,
those of `sent` had their requests sent. What the caller may do besides is to register
exchanges, to fail the ones that cannot be delivered, and to report.

## Main results

* `Spares.trans`: turns of one caller add up.
* `Aside.spares`: what leaves the callers alone is part of any turn.
* `spares_register`, `spares_failExchange`, `spares_keep`, `spares_finish`: the steps of a turn.
-/

namespace VenueLink.Switchboard

open Exchange Correlator

variable {α ρ : Type}

/-- Between `s` and `s'` only the caller `k` gets on. Of the exchanges registered before, those
of `sent` had their requests sent, at the instant of the turn; an exchange that ends cannot be
delivered. -/
structure Spares (k : Nat) (sent : List Nat) (s s' : Switchboard α ρ) : Prop where
  now_eq : s'.now = s.now
  next_eq : s'.next = s.next
  yielded_eq : s'.yielded = s.yielded
  sound : s.correlator.Sound → s'.correlator.Sound
  deadlines : s.correlator.deadlines <+: s'.correlator.deadlines
  entries : ∀ e ∈ s'.correlator.entries, e.id < s.correlator.next → e ∈ s.correlator.entries
  outcomes : ∃ more, s'.correlator.outcomes = s.correlator.outcomes ++ more ∧
    ∀ o ∈ more, ∃ seen, o.resolution = .failed ⟨.connectionLost, seen⟩
  requests : ∃ more, s'.requests = s.requests ++ more ∧ sent ⊆ more ∧
    ∀ id ∈ more, id ∈ sent ∨ s.correlator.next ≤ id
  frames : ∃ more, s'.wire.sent = s.wire.sent ++ more ∧ ∀ x ∈ more, x.time = s.now
  requests_lt : (∀ id ∈ s.requests, id < s.correlator.next) →
    ∀ id ∈ s'.requests, id < s'.correlator.next
  ready : ∃ more, s'.ready = s.ready ++ more ∧ ∀ id, .expire id ∉ more
  timers_kept : ∀ t ∈ s.timers, t.alarm.caller? ≠ some k → t ∈ s'.timers
  timers_new : ∀ t ∈ s'.timers,
    t ∈ s.timers ∨ s.now < t.due ∧ ∀ j, t.alarm = .giveUp j → j = k
  callers : (s.callers.map Caller.id).Nodup →
    (s'.callers.map Caller.id).Nodup ∧ ∀ d, d.id ≠ k → (d ∈ s'.callers ↔ d ∈ s.callers)
  reports : s.reports <+: s'.reports

/-- Exchanges are numbered upwards. -/
theorem Spares.next_le {k : Nat} {sent : List Nat} {s s' : Switchboard α ρ}
    (h : Spares k sent s s') : s.correlator.next ≤ s'.correlator.next :=
  h.deadlines.length_le

/-- Requests of certain exchanges are sent, and then those of others; the rest are new each
time. -/
theorem exists_requests_trans {xs ys : List Nat} {s₁ s₂ s₃ : Switchboard α ρ}
    (hle : s₁.correlator.next ≤ s₂.correlator.next)
    (h₁ : ∃ more, s₂.requests = s₁.requests ++ more ∧ xs ⊆ more ∧
      ∀ id ∈ more, id ∈ xs ∨ s₁.correlator.next ≤ id)
    (h₂ : ∃ more, s₃.requests = s₂.requests ++ more ∧ ys ⊆ more ∧
      ∀ id ∈ more, id ∈ ys ∨ s₂.correlator.next ≤ id) :
    ∃ more, s₃.requests = s₁.requests ++ more ∧ xs ++ ys ⊆ more ∧
      ∀ id ∈ more, id ∈ xs ++ ys ∨ s₁.correlator.next ≤ id := by
  refine exists_append_trans h₁ h₂ fun ⟨hsub₁, hall₁⟩ ⟨hsub₂, hall₂⟩ =>
    ⟨List.append_subset.mpr ⟨List.Subset.trans hsub₁ (List.subset_append_left _ _),
      List.Subset.trans hsub₂ (List.subset_append_right _ _)⟩,
      List.forall_mem_append.mpr ⟨fun id hid => ?_, fun id hid => ?_⟩⟩
  · exact (hall₁ id hid).imp_left (List.mem_append_left _)
  · exact (hall₂ id hid).imp (List.mem_append_right _) (Nat.le_trans hle)

/-- Two stretches of a turn one after the other. -/
theorem Spares.trans {k : Nat} {xs ys : List Nat} {s₁ s₂ s₃ : Switchboard α ρ}
    (h₁ : Spares k xs s₁ s₂) (h₂ : Spares k ys s₂ s₃) : Spares k (xs ++ ys) s₁ s₃ where
  now_eq := h₂.now_eq.trans h₁.now_eq
  next_eq := h₂.next_eq.trans h₁.next_eq
  yielded_eq := h₂.yielded_eq.trans h₁.yielded_eq
  sound hs := h₂.sound (h₁.sound hs)
  deadlines := h₁.deadlines.trans h₂.deadlines
  entries e he hlt := h₁.entries e (h₂.entries e he (Nat.lt_of_lt_of_le hlt h₁.next_le)) hlt
  outcomes := exists_append_trans h₁.outcomes h₂.outcomes fun hall₁ hall₂ =>
    List.forall_mem_append.mpr ⟨hall₁, hall₂⟩
  requests := exists_requests_trans h₁.next_le h₁.requests h₂.requests
  frames := exists_append_trans h₁.frames h₂.frames fun hall₁ hall₂ =>
    List.forall_mem_append.mpr ⟨hall₁, fun x hx => (hall₂ x hx).trans h₁.now_eq⟩
  requests_lt hlt := h₂.requests_lt (h₁.requests_lt hlt)
  ready := exists_append_trans h₁.ready h₂.ready fun hno₁ hno₂ id =>
    List.not_mem_append (hno₁ id) (hno₂ id)
  timers_kept t ht hk := h₂.timers_kept t (h₁.timers_kept t ht hk) hk
  timers_new t ht := by
    rcases h₂.timers_new t ht with h | h
    · exact h₁.timers_new t h
    · exact .inr (h₁.now_eq ▸ h)
  callers hnd := by
    obtain ⟨hnd₂, hcallers₂⟩ := h₁.callers hnd
    obtain ⟨hnd₃, hcallers₃⟩ := h₂.callers hnd₂
    exact ⟨hnd₃, fun d hd => (hcallers₃ d hd).trans (hcallers₂ d hd)⟩
  reports := h₁.reports.trans h₂.reports

/-- Go on with something that sends nothing. -/
theorem Spares.then_nil {k : Nat} {xs : List Nat} {s₁ s₂ s₃ : Switchboard α ρ}
    (h₁ : Spares k xs s₁ s₂) (h₂ : Spares k [] s₂ s₃) : Spares k xs s₁ s₃ :=
  List.append_nil xs ▸ h₁.trans h₂

/-! ### The small operations -/

/-- What leaves everything aside spares the other callers too. -/
theorem Aside.spares {s s' : Switchboard α ρ} {new : List Nat} (h : s.Aside new s') (k : Nat)
    (hnew : ∀ id ∈ new, id < s.correlator.next) : Spares k new s s' where
  now_eq := h.now_eq
  next_eq := h.next_eq
  yielded_eq := h.yielded_eq
  sound hs := h.correlator_eq ▸ hs
  deadlines := h.correlator_eq ▸ List.prefix_rfl
  entries e he _ := h.correlator_eq ▸ he
  outcomes := ⟨[], by simp [h.correlator_eq], fun _ ho => absurd ho List.not_mem_nil⟩
  requests := ⟨new, h.requests_eq, List.Subset.refl _, fun _ hid => .inl hid⟩
  frames := by
    obtain ⟨more, heq, -, hall⟩ := h.sent
    exact ⟨more, heq, hall⟩
  requests_lt hlt id hid := by
    rw [h.requests_eq] at hid
    rw [h.correlator_eq]
    rcases List.mem_append.mp hid with hold | hn
    · exact hlt id hold
    · exact hnew id hn
  ready := h.ready
  timers_kept t ht _ := by
    obtain ⟨more, heq, -⟩ := h.timers
    exact heq ▸ List.mem_append_left _ ht
  timers_new t ht := by
    obtain ⟨more, heq, hmore⟩ := h.timers
    rw [heq] at ht
    rcases List.mem_append.mp ht with hold | hn
    · exact .inl hold
    · exact .inr ⟨(hmore t hn).1, fun j hj => absurd hj ((hmore t hn).2 j)⟩
  callers hnd := by simp [h.callers_eq, hnd]
  reports := h.reports_eq ▸ List.prefix_rfl

/-- A change that sends nothing. -/
theorem Aside.spares_nil {s s' : Switchboard α ρ} (h : s.Aside [] s') (k : Nat) :
    Spares k [] s s' :=
  h.spares k fun _ hid => absurd hid List.not_mem_nil

/-- A caller takes back its own timer only. -/
theorem spares_disarm (s : Switchboard α ρ) (k : Nat) : Spares k [] s (s.disarm k) where
  __ := (Aside.refl s).spares_nil k
  timers_kept t ht hk := List.mem_filter.mpr ⟨ht, by simpa using hk⟩
  timers_new t ht := .inl (List.mem_filter.mp ht).1

/-- A caller sets its own timer only. -/
theorem spares_arm {s : Switchboard α ρ} {k duration : Nat} (hd : duration ≠ 0) :
    Spares k [] s (s.arm duration (.giveUp k)) where
  __ := (Aside.refl s).spares_nil k
  timers_kept t ht _ := List.mem_append_left _ ht
  timers_new t ht := by
    rcases List.mem_append.mp ht with hold | hnew
    · exact .inl hold
    · obtain rfl := List.mem_singleton.mp hnew
      exact .inr ⟨Nat.lt_add_of_pos_right (Nat.pos_of_ne_zero hd), fun j hj => by cases hj; rfl⟩

/-- Registering takes no time. -/
@[simp] theorem now_register (s : Switchboard α ρ) (m : Matcher α) (timeout : Nat) :
    (s.register m timeout).now = s.now := rfl

/-- In the correlator an exchange is registered at the present instant. -/
@[simp] theorem correlator_register (s : Switchboard α ρ) (m : Matcher α) (timeout : Nat) :
    (s.register m timeout).correlator = s.correlator.register s.now m timeout := rfl

/-- Nothing is sent by registering. -/
@[simp] theorem wire_register (s : Switchboard α ρ) (m : Matcher α) (timeout : Nat) :
    (s.register m timeout).wire = s.wire := rfl

/-- The watch over a new exchange is ready, and that is all that is. -/
theorem aside_watch (s : Switchboard α ρ) (exchange : Nat) :
    s.Aside [] (s.enqueue (.watch exchange)) :=
  s.aside_enqueue fun _ h => by cases h

/-- A new exchange takes no other one's place. -/
theorem spares_register (s : Switchboard α ρ) (k : Nat) (m : Matcher α) (timeout : Nat) :
    Spares k [] s (s.register m timeout) where
  __ := (s.aside_watch s.correlator.next).spares_nil k
  sound hs := hs.register s.now m timeout
  deadlines := List.prefix_append _ _
  entries e he hlt := by
    rcases List.mem_append.mp he with hold | hnew
    · exact hold
    · obtain rfl := List.mem_singleton.mp hnew
      exact absurd hlt (Nat.lt_irrefl _)
  outcomes := ⟨[], (List.append_nil _).symm, fun _ ho => absurd ho List.not_mem_nil⟩
  requests_lt hlt id hid := by
    change id < (s.correlator.register s.now m timeout).next
    rw [next_register]
    exact Nat.lt_succ_of_lt (hlt id hid)

/-- What an operation does that ends at most one exchange, which cannot be delivered. -/
theorem spares_failExchange {s : Switchboard α ρ} (hs : s.correlator.Sound) (k id : Nat) :
    Spares k [] s (s.failExchange id) := by
  rw [failExchange]
  by_cases hp : id ∈ s.correlator.pendingIds
  · obtain ⟨e, he, rfl⟩ := List.mem_map.mp hp
    have hends := ends_fail hs s.now he .connectionLost
    exact
      { __ := (Aside.refl s).spares_nil k
        sound := fun hs => hs.of_ends hends
        deadlines := hends.deadlines_eq ▸ List.prefix_rfl
        entries := fun d hd _ => (mem_entries_fail.mp hd).1
        outcomes := ⟨_, hends.outcomes_eq, fun o ho => by
          obtain rfl := List.mem_singleton.mp ho
          exact ⟨e.transcript, rfl⟩⟩
        requests_lt := fun hlt d hd => by
          dsimp only
          rw [hends.next_eq]
          exact hlt d hd }
  · rw [fail_of_not_pending hp]
    exact (Aside.refl s).spares_nil k

/-- Putting a caller in its place leaves the others. -/
theorem mem_putCaller {c d : Caller α ρ} {l : List (Caller α ρ)}
    (hnd : (l.map Caller.id).Nodup) : d ∈ putCaller c l ↔ d = c ∨ d ∈ l ∧ d.id ≠ c.id := by
  induction l with
  | nil => simp [putCaller]
  | cons a rest ih =>
    obtain ⟨hhead, htail⟩ := List.nodup_cons.mp hnd
    rw [putCaller]
    split
    · next heq =>
      rw [heq] at hhead
      have hrest : ∀ x ∈ rest, x.id ≠ c.id :=
        fun x hx hid => hhead (hid ▸ List.mem_map_of_mem hx)
      constructor
      · intro hmem
        rcases List.mem_cons.mp hmem with rfl | hx
        · exact .inl rfl
        · exact .inr ⟨List.mem_cons_of_mem _ hx, hrest d hx⟩
      · rintro (rfl | ⟨hmem, hne⟩)
        · exact List.mem_cons_self
        · rcases List.mem_cons.mp hmem with rfl | hx
          · exact absurd heq hne
          · exact List.mem_cons_of_mem _ hx
    · next hne =>
      rw [List.mem_cons, ih htail, List.mem_cons]
      constructor
      · rintro (rfl | rfl | ⟨hmem, hid⟩)
        · exact .inr ⟨.inl rfl, hne⟩
        · exact .inl rfl
        · exact .inr ⟨.inr hmem, hid⟩
      · rintro (rfl | ⟨rfl | hmem, hid⟩)
        · exact .inr (.inl rfl)
        · exact .inl rfl
        · exact .inr (.inr ⟨hmem, hid⟩)

/-- A caller that is put in its place is there once. -/
theorem nodup_putCaller {c : Caller α ρ} {l : List (Caller α ρ)}
    (hnd : (l.map Caller.id).Nodup) : ((putCaller c l).map Caller.id).Nodup := by
  induction l with
  | nil => simp [putCaller]
  | cons a rest ih =>
    obtain ⟨hhead, htail⟩ := List.nodup_cons.mp hnd
    rw [putCaller]
    split
    · next heq => exact List.nodup_cons.mpr ⟨heq ▸ hhead, htail⟩
    · next hne =>
      refine List.nodup_cons.mpr ⟨fun hmem => ?_, ih htail⟩
      obtain ⟨d, hd, hid⟩ := List.mem_map.mp hmem
      rcases (mem_putCaller htail).mp hd with rfl | ⟨hrest, -⟩
      · exact hne hid.symm
      · exact hhead (hid ▸ List.mem_map_of_mem hrest)

/-- A caller that is kept is put in its own place. -/
theorem spares_keep (s : Switchboard α ρ) (c : Caller α ρ) : Spares c.id [] s (s.keep c) where
  __ := (Aside.refl s).spares_nil c.id
  callers hnd := by
    refine ⟨nodup_putCaller hnd, fun d hd => ?_⟩
    change d ∈ putCaller c s.callers ↔ _
    rw [mem_putCaller hnd]
    constructor
    · rintro (rfl | ⟨hmem, -⟩)
      · exact absurd rfl hd
      · exact hmem
    · exact fun hmem => .inr ⟨hmem, hd⟩

/-- A caller that goes takes nothing of the others with it. -/
theorem spares_dismiss (s : Switchboard α ρ) (k : Nat) : Spares k [] s (s.dismiss k) where
  __ := spares_disarm s k
  callers hnd := by
    refine ⟨hnd.sublist (List.filter_sublist.map _), fun d hd => ?_⟩
    simp [dismiss, hd]

/-- Nor does one that has answered. -/
theorem spares_finish (s : Switchboard α ρ) (k : Nat) (label : String) (r : ρ) :
    Spares k [] s (s.finish k label r) where
  __ := spares_dismiss s k
  reports := List.prefix_append _ _

/-- A caller that is stopped on its way gives up its attempt, if it is at one. -/
theorem aside_stopAt (s : Switchboard α ρ) (stage : Stage) : s.Aside [] (s.stopAt stage) := by
  simp only [stopAt]
  split
  · exact s.aside_abandon _
  · exact .refl s

end VenueLink.Switchboard

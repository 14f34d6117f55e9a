import VenueLink.Proofs.Switchboard.Reopening

/-!
# The first frame of a connection

News that a connection is open is told once, and until the link has heard it nothing is sent
over that connection. So if the link hears the news while the wire is open, and a handshake is
set, then the handshake is the first frame that goes over the connection. News of an earlier
connection is passed over, and nothing is ever sent over that one.

## Main results

* `heralded_play`: nothing is sent over a connection while it is still to be told that it is
  open.
* `first_frame`: the first frame over a connection whose news is heard.
-/

namespace VenueLink.Switchboard

open Exchange

variable {α ρ : Type}

/-! ### News of open connections -/

/-- No connection is told to be open twice, and while it is still to be told, nothing has been
sent over the connection and the link is not open. -/
structure Heralded (s : Switchboard α ρ) : Prop where
  once : ∀ g, s.heralds g ≤ 1
  told : s.link.phase = .opened → s.heralds s.link.generation = 0
  unsent : ∀ x ∈ s.wire.sent, s.heralds x.generation = 0
  sent_le : ∀ x ∈ s.wire.sent, ∃ latest, s.wire.connection = some latest ∧ x.generation ≤ latest

/-- At the start nothing is to be told. -/
theorem heralded_start (cap : Nat) (manual : Bool) :
    (start cap manual : Switchboard α ρ).Heralded where
  once _ := Nat.zero_le 1
  told h := by cases h
  unsent _ hx := absurd hx List.not_mem_nil
  sent_le _ hx := absurd hx List.not_mem_nil

/-- An announcement is one more thing to be told. -/
theorem heralds_announce (s : Switchboard α ρ) (g k : Nat) :
    (s.announce g).heralds k = s.heralds k + if k = g then 1 else 0 := by
  rw [announce]
  split
  · rw [heralds_hear]
    by_cases hk : k = g <;> simp [hk, Ne.symm]
  · by_cases hk : k = g <;> simp [heralds, coming, arm, hk, Ne.symm, Nat.add_assoc]

section Heralded

variable {others : Nat → Prop} {a b : Option Nat} {s s' : Switchboard α ρ}

/-- No more is to be told than before, and frames are sent only over a connection of which all
is told. -/
theorem Heralded.of_le (h : s.Heralded) (hheralds : ∀ g, s'.heralds g ≤ s.heralds g)
    (htold : s'.link.phase = .opened → s'.heralds s'.link.generation = 0)
    (hconnection : s'.wire.connection = s.wire.connection)
    (hsent : ∀ x ∈ s'.wire.sent, x ∈ s.wire.sent ∨
      s.heralds x.generation = 0 ∧ s.wire.connection = some x.generation) : s'.Heralded where
  once g := Nat.le_trans (hheralds g) (h.once g)
  told := htold
  unsent x hx := by
    have hbefore : s.heralds x.generation = 0 := (hsent x hx).elim (h.unsent x) And.left
    exact Nat.le_zero.mp (hbefore ▸ hheralds x.generation)
  sent_le x hx := by
    rw [hconnection]
    exact (hsent x hx).elim (h.sent_le x) fun hnew => ⟨_, hnew.2, Nat.le_refl _⟩

/-- A calm stretch tells nothing twice. -/
theorem Heralded.of_calm (h : s.Heralded) (hcalm : Calm s s')
    (hon : s.link.phase = .opened → s.wire.connection = some s.link.generation) :
    s'.Heralded := by
  refine h.of_le (fun g => Nat.le_of_eq (hcalm.heralds_eq g)) ?_ hcalm.connection_eq
    fun x hx => ?_
  · rw [hcalm.phase_eq, hcalm.generation_eq, hcalm.heralds_eq]
    exact h.told
  · obtain ⟨more, heq, hall⟩ := hcalm.sent
    rw [heq] at hx
    refine (List.mem_append.mp hx).imp_right fun hnew => ?_
    obtain ⟨hgeneration, hopen⟩ := hall x hnew
    rw [hgeneration, hon hopen]
    exact ⟨h.told hopen, rfl⟩

/-- A new connection is told of for the first time, and nothing has been sent over it. -/
theorem Heralded.of_connect {g : Nat} (h : s.Heralded) (ha : Attuned others (some g) s) :
    ({ s with wire := { s.wire with connection := some g, isOpen := true } }.announce
      g).Heralded := by
  obtain ⟨-, hphase, -⟩ := ha.attempt g (.inl rfl)
  have hnone : s.heralds g = 0 := by
    by_contra hpos
    have hawaits := heralds_pos_iff.mp (Nat.pos_of_ne_zero hpos)
    obtain ⟨latest, hlatest, hle⟩ := ha.outstanding_le g hawaits.outstanding
    exact Nat.not_le.mpr (ha.connection_lt hlatest) hle
  have hheralds :
      ∀ k, ({ s with wire := { s.wire with connection := some g, isOpen := true } }.announce
      g).heralds k = s.heralds k + if k = g then 1 else 0 := fun k => heralds_announce _ g k
  refine ⟨fun k => ?_, fun hopen => ?_, fun x hx => ?_, fun x hx => ?_⟩
  · rw [hheralds]
    split
    · next hk => exact hk ▸ Nat.le_of_eq (congrArg (· + 1) hnone)
    · exact h.once k
  · rw [link_announce] at hopen
    rw [hphase] at hopen
    cases hopen
  · rw [wire_announce] at hx
    obtain ⟨latest, hlatest, hle⟩ := h.sent_le x hx
    have := ha.connection_lt hlatest
    rw [hheralds, h.unsent x hx, if_neg (by omega)]
  · rw [wire_announce] at hx ⊢
    obtain ⟨latest, hlatest, hle⟩ := h.sent_le x hx
    exact ⟨g, rfl, Nat.le_of_lt (Nat.lt_of_le_of_lt hle (ha.connection_lt hlatest))⟩

/-- Nor does a caller on its way to a connection. -/
theorem Heralded.of_tries (h : s.Heralded) (ha : Attuned others a s) (htries : Tries a s b s') :
    s'.Heralded := by
  induction htries with
  | calm hcalm => exact h.of_calm hcalm ha.opened
  | attempt hclosed =>
    exact h.of_le (fun g => Nat.le_refl _) (fun hopen => by cases hopen) rfl fun x hx => .inl hx
  | abandon s g =>
    obtain ⟨hg, hphase, -⟩ := ha.attempt g (.inl rfl)
    have hlink : s.link.abandon g = { s.link with phase := .closed } := if_pos ⟨hg, hphase⟩
    have hclosed : ({ s with link := s.link.abandon g } : Switchboard α ρ).Heralded :=
      h.of_le (fun g => Nat.le_refl _) (fun hopen => by rw [hlink] at hopen; cases hopen) rfl
        fun x hx => .inl hx
    rw [abandon]
    split
    · exact h
    · exact hclosed.of_calm (calm_wakeWhere _ _) fun hopen => by
        rw [hlink] at hopen; cases hopen
  | connect s g => exact h.of_connect ha
  | trans h₁ _ ih₁ ih₂ => exact ih₂ (ih₁ h ha) (ha.of_tries h₁)

/-- A link is open after some news if it was open before, or if this was the news. -/
theorem opened_of_phaseAfter {g : Nat} {phase : Link.Phase} {x : Signal}
    (h : phaseAfter g phase x = .opened) : phase = .opened ∨ x = .opened g := by
  cases x with
  | message k payload => exact .inl h
  | opened k =>
    by_cases hk : k = g
    · exact .inr (congrArg _ hk)
    · rw [phaseAfter, if_neg hk] at h
      exact .inl h
  | closed k reason =>
    by_cases hk : k = g
    · rw [phaseAfter, if_pos hk] at h
      cases h
    · rw [phaseAfter, if_neg hk] at h
      exact .inl h

/-- The link hears the first signal of the wire. -/
theorem Heralded.of_hear (h : s.Heralded) (hin : s.InTune) {x : Signal} {rest : List Signal}
    (hinbox : s.inbox = x :: rest) :
    (({ s with inbox := rest } : Switchboard α ρ).handle x).Heralded := by
  have hheralds : ∀ (l : Link) g, s.heralds g =
      [x].count (.opened g) + ({ s with inbox := rest, link := l } : Switchboard α ρ).heralds
        g := by
    intro l g
    rw [heralds, hinbox, ← List.singleton_append, List.count_append, Nat.add_assoc]
    rfl
  refine Heralded.of_calm ?_ (calm_handle { s with inbox := rest } x)
    (hin.attuned.of_hear hinbox).opened
  refine h.of_le (fun g => hheralds _ g ▸ Nat.le_add_left _ _) (fun hopen => ?_) rfl
    fun y hy => .inl hy
  have hsplit := hheralds { s.link with phase := phaseAfter s.link.generation s.link.phase x }
    s.link.generation
  rcases opened_of_phaseAfter hopen with hbefore | rfl
  · rw [h.told hbefore] at hsplit
    exact (Nat.add_eq_zero_iff.mp hsplit.symm).2
  · have honce := h.once s.link.generation
    rw [hsplit, List.count_singleton_self, Nat.add_comm] at honce
    exact Nat.le_zero.mp (Nat.le_of_succ_le_succ honce)

/-- Nor whatever happens to the connection. -/
theorem Heralded.of_shift (h : s.Heralded) (hin : s.InTune) {xs : List Signal}
    (hshift : Shift s xs s') : s'.Heralded := by
  cases hshift with
  | turn hattuned htries _ _ => exact h.of_tries (hattuned hin) htries
  | tell hlink hwire _ _ hheralds _ =>
    refine h.of_le hheralds (fun hopen => ?_) (hwire ▸ rfl) fun x hx => .inl (hwire ▸ hx)
    rw [hlink] at hopen ⊢
    exact Nat.le_zero.mp (h.told hopen ▸ hheralds _)
  | hangUp reason =>
    have hheralds :
        ∀ g, (({ s with wire := { s.wire with isOpen := false } } : Switchboard α ρ).hear
        (s.wire.connection.toList.map (Signal.closed · reason))).heralds g = s.heralds g := by
      intro g
      rw [heralds_hear, List.count_eq_zero.mpr (by simp)]
      rfl
    refine h.of_le (fun g => Nat.le_of_eq (hheralds g)) (fun hopen => ?_) ?_ fun x hx => .inl ?_
    · rw [hheralds, link_hear]
      rw [link_hear] at hopen
      exact h.told hopen
    · rw [wire_hear]
    · rwa [wire_hear] at hx
  | hear hinbox => exact h.of_hear hin hinbox

end Heralded

/-- Nothing is sent over a connection while it is still to be told that it is open. -/
theorem heralded_play (cap : Nat) (manual : Bool) {moves : List (Move α ρ)}
    (hmoves : ∀ m ∈ moves, m.Own) :
    ((start cap manual : Switchboard α ρ).play moves).Heralded := by
  refine play_induction cap manual (motive := fun _ s => s.Heralded) (heralded_start cap manual)
    ?_ hmoves
  intro before m s ho hin hm h
  exact h.of_shift hin (shift_move ho hm)

/-! ### What is sent stays sent -/

/-- What has been sent remains so where it is calm. -/
theorem Calm.sent_grows {s s' : Switchboard α ρ} (h : Calm s s') :
    s.wire.sent <+: s'.wire.sent := by
  obtain ⟨more, heq, -⟩ := h.sent
  exact heq ▸ List.prefix_append _ _

/-- So it does on the way to a connection. -/
theorem Tries.sent_grows {a b : Option Nat} {s s' : Switchboard α ρ} (h : Tries a s b s') :
    s.wire.sent <+: s'.wire.sent := by
  induction h with
  | calm hcalm => exact hcalm.sent_grows
  | attempt _ => exact List.prefix_rfl
  | abandon s g => exact ⟨[], by rw [wire_abandon, List.append_nil]⟩
  | connect s g => exact ⟨[], by rw [wire_announce, List.append_nil]⟩
  | trans _ _ ih₁ ih₂ => exact ih₁.trans ih₂

/-- And whatever happens to the connection. -/
theorem Shift.sent_grows {s s' : Switchboard α ρ} {xs : List Signal} (h : Shift s xs s') :
    s.wire.sent <+: s'.wire.sent := by
  cases h with
  | turn _ htries _ _ => exact htries.sent_grows
  | hangUp reason => exact ⟨[], by rw [wire_hear, List.append_nil]⟩
  | tell _ hwire _ _ _ _ => exact ⟨[], by rw [hwire, List.append_nil]⟩
  | @hear x rest _ => exact (calm_handle { s with inbox := rest } x).sent_grows

section Play

variable {s : Switchboard α ρ} {moves : List (Move α ρ)} (ho : s.Orderly)
  (hmoves : ∀ m ∈ moves, m.Own)
include ho hmoves

/-- And in a play. -/
theorem sent_grows_play : s.wire.sent <+: (s.play moves).wire.sent := by
  induction moves generalizing s with
  | nil => exact List.prefix_rfl
  | cons m rest ih =>
    exact (shift_move ho (hmoves m List.mem_cons_self)).sent_grows.trans
      (ih (orderly_move ho m) fun m' hm' => hmoves m' (List.mem_cons_of_mem _ hm'))

/-- Frames go over the latest connection. -/
theorem generation_le_of_sent (hin : s.InTune) {x : Sent} (hx : x ∈ (s.play moves).wire.sent) :
    x ∈ s.wire.sent ∨ s.link.generation ≤ x.generation := by
  induction moves generalizing s with
  | nil => exact .inl hx
  | cons m rest ih =>
    have hm := hmoves m List.mem_cons_self
    have hle := (phase_move ho m).1
    rcases ih (orderly_move ho m) (fun m' hm' => hmoves m' (List.mem_cons_of_mem _ hm'))
      (inTune_move ho hin hm) hx with hfirst | hlater
    · rcases (shift_move ho hm).sent hin hfirst with hold | ⟨-, hnew⟩
      · exact .inl hold
      · exact .inr (hnew ▸ hle)
    · exact .inr (Nat.le_trans hle hlater)

end Play

/-! ### The first frame -/

/-- The link hears that its connection is open while the wire is. -/
theorem sent_handle_opened {s : Switchboard α ρ} (hopen : s.wire.isOpen) {handshake : Json}
    (hhandshake : s.link.handshake = some handshake)
    (hon : s.wire.connection = some s.link.generation) :
    (s.handle (.opened s.link.generation)).wire.sent =
      s.wire.sent ++ [⟨handshake, s.now, s.link.generation, none⟩] := by
  rw [handle_opened, wakeOpening, wire_wakeWhere, greet, hhandshake]
  simp only [Wire.send, hopen, if_true, wire_hear, hon, Option.getD_some]

/-- A signal that is handled, but not from elsewhere, was the first of those that had been taken
in. -/
theorem inbox_of_heard {s : Switchboard α ρ} {m : Move α ρ} (hm : m.Own) {x : Signal}
    (hheard : s.heard m = [x]) : ∃ rest, s.inbox = x :: rest ∧
      s.move m = ({ s with inbox := rest } : Switchboard α ρ).handle x := by
  cases m with
  | deliver =>
    rw [heard] at hheard
    cases hin : s.inbox with
    | nil => simp [hin] at hheard
    | cons y rest =>
      obtain rfl : y = x := by simpa [hin] using hheard
      exact ⟨rest, rfl, by rw [move, hin]⟩
  | intrude signal => exact absurd hm id
  | _ => cases hheard

/-- Nothing has been sent over a connection that is still to be told to be open. -/
theorem Heralded.sent_eq_nil {s : Switchboard α ρ} (h : s.Heralded) {g : Nat}
    (hawaits : s.Awaits g) : s.wire.sent.filter (·.generation = g) = [] := by
  refine List.filter_eq_nil_iff.mpr fun x hx heq => ?_
  have hpos := heralds_pos_iff.mpr hawaits
  rw [← of_decide_eq_true heq, h.unsent x hx] at hpos
  exact Nat.lt_irrefl 0 hpos

/-- When the link hears that a connection is open, while the wire is and a handshake is set, the
handshake is the first frame that is ever sent over the connection. If the news is of an earlier
connection, nothing ever is. -/
theorem first_frame {s : Switchboard α ρ} (ho : s.Orderly) (hin : s.InTune) (h : s.Heralded)
    {m : Move α ρ} (hm : m.Own) {g : Nat} (hheard : s.heard m = [.opened g])
    (hopen : s.wire.isOpen) {handshake : Json} (hhandshake : s.link.handshake = some handshake)
    {later : List (Move α ρ)} (hlater : ∀ m ∈ later, m.Own) :
    let sent := ((s.move m).play later).wire.sent.filter (·.generation = g)
    (g = s.link.generation → ∃ rest, sent = ⟨handshake, s.now, g, none⟩ :: rest) ∧
      (g ≠ s.link.generation → sent = []) := by
  obtain ⟨rest, hinbox, hmove⟩ := inbox_of_heard hm hheard
  have hawaits : s.Awaits g := .inl (hinbox ▸ List.mem_cons_self)
  have hnone := h.sent_eq_nil hawaits
  have ho' := orderly_move ho m
  dsimp only
  refine ⟨fun hg => ?_, fun hg => ?_⟩
  · subst hg
    have hon := hin.attuned.connection_of_outstanding hawaits.outstanding
    have hsent := sent_handle_opened (s := { s with inbox := rest }) hopen hhandshake hon
    obtain ⟨more, hmore⟩ := sent_grows_play ho' hlater
    rw [← hmore, hmove]
    refine ⟨more.filter (·.generation = s.link.generation), ?_⟩
    rw [hsent, List.filter_append, List.filter_append, hnone]
    simp
  · -- the link is at a later connection, over which all frames go from now on
    obtain ⟨latest, hlatest, hle⟩ := hin.attuned.outstanding_le g hawaits.outstanding
    have hlink := hin.attuned.connection_le latest hlatest
    have hstale : s.move m = { s with inbox := rest } := by
      rw [hmove]
      exact handle_of_ne (s := { s with inbox := rest }) (x := .opened g) hg
    refine List.filter_eq_nil_iff.mpr fun x hx heq => ?_
    have heq : x.generation = g := of_decide_eq_true heq
    rcases generation_le_of_sent ho' hlater (inTune_move ho hin hm) hx with hold | hnew
    · rw [hstale] at hold
      exact List.filter_eq_nil_iff.mp hnone x hold (decide_eq_true heq)
    · rw [hstale] at hnew
      dsimp only at hnew
      omega

end VenueLink.Switchboard

import VenueLink.Proofs.Switchboard.Shift

/-!
# A connection that has closed

News that a connection is open may come late. When it is handled after the news that the same
connection has closed, the link is open again, though no attempt was made and the wire is
closed: the link only looks at the generation. Apart from that a link that has closed stays
closed until somebody makes an attempt.

## Main results

* `phase_play`: as long as no attempt is started, the phase of a link that is not connecting is
  what it has heard last.
* `noted_play`: the wire has closed its connection exactly if it has told so.
* `closed_stays_closed_iff`: when a link that has closed is open again without an attempt, and
  when an open link is on a wire that is closed.
-/

namespace VenueLink.Switchboard

open Exchange

variable {α ρ : Type}

/-! ### What the link has heard last -/

/-- A caller in its turn leaves a link that is not connecting as it is, or starts an attempt. -/
theorem Tries.phase {a b : Option Nat} {s s' : Switchboard α ρ} (h : Tries a s b s') :
    s.link.generation ≤ s'.link.generation ∧ (s'.link.generation = s.link.generation →
      s.link.phase ≠ .connecting → s'.link.phase = s.link.phase) := by
  induction h with
  | calm hcalm => exact ⟨Nat.le_of_eq hcalm.generation_eq.symm, fun _ _ => hcalm.phase_eq⟩
  | @attempt s hclosed =>
    exact ⟨Nat.le_succ _, fun heq => absurd heq (Nat.succ_ne_self s.link.generation)⟩
  | abandon s g =>
    rw [link_abandon, Link.abandon]
    split
    · next hg => exact ⟨Nat.le_refl _, fun _ hne => absurd hg.2 hne⟩
    · exact ⟨Nat.le_refl _, fun _ _ => rfl⟩
  | connect s g =>
    rw [link_announce]
    exact ⟨Nat.le_refl _, fun _ _ => rfl⟩
  | trans _ _ ih₁ ih₂ =>
    refine ⟨Nat.le_trans ih₁.1 ih₂.1, fun heq hne => ?_⟩
    have hfirst := Nat.le_antisymm (heq ▸ ih₂.1) ih₁.1
    have hphase := ih₁.2 hfirst hne
    rw [← hphase]
    exact ih₂.2 (heq.trans hfirst.symm) (hphase ▸ hne)

/-- A move that starts no attempt changes the phase of a link that is not connecting by what the
link hears. -/
theorem phase_move {s : Switchboard α ρ} (ho : s.Orderly) (m : Move α ρ) :
    s.link.generation ≤ (s.move m).link.generation ∧
      ((s.move m).link.generation = s.link.generation → s.link.phase ≠ .connecting →
        (s.move m).link.phase =
          (s.heard m).foldl (phaseAfter s.link.generation) s.link.phase) := by
  by_cases hm : m.Own
  · have hshift := shift_move ho hm
    generalize s.heard m = xs at hshift ⊢
    generalize s.move m = s' at hshift ⊢
    cases hshift with
    | turn _ htries _ => exact htries.phase
    | hangUp reason =>
      rw [link_hear]
      exact ⟨Nat.le_refl _, fun _ _ => rfl⟩
    | tell hlink _ _ _ =>
      rw [hlink]
      exact ⟨Nat.le_refl _, fun _ _ => rfl⟩
    | @hear x rest hin =>
      rw [generation_handle, phase_handle]
      exact ⟨Nat.le_refl _, fun _ _ => rfl⟩
  · cases m with
    | intrude x =>
      rw [move, generation_handle, phase_handle]
      exact ⟨Nat.le_refl _, fun _ _ => rfl⟩
    | _ => exact absurd trivial hm

/-- No news makes a link connecting. -/
theorem foldl_phaseAfter_ne_connecting {g : Nat} {phase : Link.Phase} (h : phase ≠ .connecting)
    (xs : List Signal) : xs.foldl (phaseAfter g) phase ≠ .connecting := by
  induction xs generalizing phase with
  | nil => exact h
  | cons x rest ih =>
    refine ih ?_
    cases x with
    | message k payload => exact h
    | opened k =>
      rw [phaseAfter]
      split
      · simp
      · exact h
    | closed k reason =>
      rw [phaseAfter]
      split
      · simp
      · exact h

/-- As long as no attempt is started, the phase of a link that is not connecting is what the
link has heard last. -/
theorem phase_play {s : Switchboard α ρ} (ho : s.Orderly) (moves : List (Move α ρ)) :
    s.link.generation ≤ (s.play moves).link.generation ∧
      ((s.play moves).link.generation = s.link.generation → s.link.phase ≠ .connecting →
        (s.play moves).link.phase =
          (s.heardIn moves).foldl (phaseAfter s.link.generation) s.link.phase) := by
  induction moves generalizing s with
  | nil => exact ⟨Nat.le_refl _, fun _ _ => rfl⟩
  | cons m rest ih =>
    obtain ⟨hle, hphase⟩ := phase_move ho m
    obtain ⟨hle', hphase'⟩ := ih (orderly_move ho m)
    refine ⟨Nat.le_trans hle hle', fun heq hne => ?_⟩
    have hfirst : (s.move m).link.generation = s.link.generation :=
      Nat.le_antisymm (heq ▸ hle') hle
    have hnow := hphase hfirst hne
    have hlater := hphase' (heq.trans hfirst.symm)
      (hnow ▸ foldl_phaseAfter_ne_connecting hne (s.heard m))
    rw [hfirst, hnow, ← List.foldl_append] at hlater
    exact hlater

/-- Among the news is that the connection of a generation is open, and not later that it is
closed. -/
def OpenedLast (g : Nat) (xs : List Signal) : Prop :=
  ∃ pre post, xs = pre ++ .opened g :: post ∧ ∀ reason, .closed g reason ∉ post

/-- News of an open connection that comes last. -/
theorem openedLast_concat_opened (g : Nat) (xs : List Signal) :
    OpenedLast g (xs ++ [.opened g]) :=
  ⟨xs, [], rfl, fun _ => List.not_mem_nil⟩

section OpenedLast

variable {g : Nat} {xs : List Signal} {x : Signal}

/-- When the last of the news is not that the connection is open, this was among the news
before. -/
theorem exists_of_concat_eq {pre post : List Signal} (h : xs ++ [x] = pre ++ .opened g :: post)
    (hx : x ≠ .opened g) : ∃ post', post = post' ++ [x] ∧ xs = pre ++ .opened g :: post' := by
  rcases List.eq_nil_or_concat post with rfl | ⟨post', y, rfl⟩
  · have hlast := List.append_inj_right' h rfl
    exact absurd (List.singleton_inj.mp hlast) hx
  · rw [List.concat_eq_append, ← List.cons_append, ← List.append_assoc] at h
    obtain ⟨hxs, hy⟩ := List.append_inj' h rfl
    exact ⟨post', by rw [List.concat_eq_append, hy], hxs⟩

/-- News of a closed one that comes last. -/
theorem not_openedLast_concat_closed (reason : String) :
    ¬OpenedLast g (xs ++ [.closed g reason]) := by
  rintro ⟨pre, post, heq, hno⟩
  obtain ⟨post', rfl, -⟩ := exists_of_concat_eq heq (by simp)
  exact hno reason (List.mem_append_right _ (List.mem_singleton.mpr rfl))

/-- News of something else does not matter. -/
theorem openedLast_concat_iff (hopened : x ≠ .opened g)
    (hclosed : ∀ reason, x ≠ .closed g reason) :
    OpenedLast g (xs ++ [x]) ↔ OpenedLast g xs := by
  constructor
  · rintro ⟨pre, post, heq, hno⟩
    obtain ⟨post', rfl, hxs⟩ := exists_of_concat_eq heq hopened
    exact ⟨pre, post', hxs, fun reason hmem => hno reason (List.mem_append_left _ hmem)⟩
  · rintro ⟨pre, post, rfl, hno⟩
    refine ⟨pre, post ++ [x], by simp, fun reason hmem => ?_⟩
    rcases List.mem_append.mp hmem with h | h
    · exact hno reason h
    · exact hclosed reason (List.mem_singleton.mp h).symm

end OpenedLast

/-- A link that was closed is open after some news exactly if it has heard that its connection
is open, and not since then that it is closed. -/
theorem foldl_phaseAfter_eq_opened_iff {g : Nat} {xs : List Signal} :
    xs.foldl (phaseAfter g) .closed = .opened ↔ OpenedLast g xs := by
  induction xs using List.reverseRecOn with
  | nil => simp [OpenedLast]
  | append_singleton xs x ih =>
    rw [List.foldl_append, List.foldl_cons, List.foldl_nil]
    -- the last signal is what it takes, or takes it away, or does not matter
    cases x with
    | message k payload =>
      rw [openedLast_concat_iff (by simp) (by simp)]
      exact ih
    | opened k =>
      by_cases hk : k = g
      · rw [phaseAfter, if_pos hk, hk]
        exact iff_of_true rfl (openedLast_concat_opened g xs)
      · rw [phaseAfter, if_neg hk, openedLast_concat_iff (by simpa using hk) (by simp)]
        exact ih
    | closed k reason =>
      by_cases hk : k = g
      · rw [phaseAfter, if_pos hk, hk]
        exact iff_of_false (by simp) (not_openedLast_concat_closed reason)
      · rw [phaseAfter, if_neg hk, openedLast_concat_iff (by simp) (by simpa using hk)]
        exact ih

/-! ### What the wire has told of its connection -/

/-- The signals of `log` have been heard, and what the wire has told of its latest connection is
among them or still to be heard; it has closed the connection exactly if it has told so. -/
structure Noted (log : List Signal) (s : Switchboard α ρ) : Prop where
  generation_le : ∀ x ∈ log, ∃ latest, s.wire.connection = some latest ∧ x.generation ≤ latest
  closed_iff : ∀ g, s.wire.connection = some g →
    (s.wire.isOpen = false ↔ ∃ reason, .closed g reason ∈ log ++ s.inbox)

section Noted

variable {log : List Signal} {s s' : Switchboard α ρ}

/-- More signals are taken in, none of them of a closed connection. -/
theorem Noted.of_eq (h : Noted log s) (hconnection : s'.wire.connection = s.wire.connection)
    (hopen : s'.wire.isOpen = s.wire.isOpen)
    (hinbox : ∃ more, s'.inbox = s.inbox ++ more ∧ ∀ g reason, .closed g reason ∉ more) :
    Noted log s' where
  generation_le := by
    rw [hconnection]
    exact h.generation_le
  closed_iff g hg := by
    obtain ⟨more, heq, hno⟩ := hinbox
    rw [hopen, h.closed_iff g (hconnection ▸ hg), heq, ← List.append_assoc]
    refine exists_congr fun reason => ?_
    rw [List.mem_append (t := more)]
    exact (or_iff_left (hno g reason)).symm

/-- Where it is calm the wire tells of no end. -/
theorem Noted.of_calm (h : Noted log s) (hcalm : Calm s s') : Noted log s' := by
  refine h.of_eq hcalm.connection_eq hcalm.isOpen_eq ?_
  obtain ⟨more, heq, hall⟩ := hcalm.inbox
  refine ⟨more, heq, fun g reason hmem => ?_⟩
  obtain ⟨k, payload, -, hmessage⟩ := hall _ hmem
  cases hmessage

/-- A new connection has not been closed yet. -/
theorem Noted.of_connect {others : Nat → Prop} {g : Nat} (h : Noted log s)
    (ha : Attuned others (some g) s) :
    Noted log
      ({ s with wire := { s.wire with connection := some g, isOpen := true } }.announce g) := by
  have hconnected : Noted log
      { s with wire := { s.wire with connection := some g, isOpen := true } } := by
    refine ⟨fun x hx => ?_, fun k hk => ?_⟩
    · obtain ⟨latest, hlatest, hle⟩ := h.generation_le x hx
      exact ⟨g, rfl, Nat.le_of_lt (Nat.lt_of_le_of_lt hle (ha.connection_lt hlatest))⟩
    · obtain rfl := Option.some.inj hk
      refine iff_of_false (by simp) ?_
      rintro ⟨reason, hmem⟩
      -- what was told before is about earlier connections
      have hold : ∃ latest, s.wire.connection = some latest ∧ g ≤ latest := by
        rcases List.mem_append.mp hmem with hlog | hin
        · exact h.generation_le _ hlog
        · exact ha.outstanding_le g (.inl ⟨_, hin, rfl⟩)
      obtain ⟨latest, hlatest, hle⟩ := hold
      exact absurd hle (Nat.not_le.mpr (ha.connection_lt hlatest))
  refine hconnected.of_eq (by rw [wire_announce]) (by rw [wire_announce]) ?_
  rw [announce]
  split
  · exact ⟨[.opened g], inbox_hear _ _, by simp⟩
  · exact ⟨[], (List.append_nil _).symm, by simp⟩

/-- Nor does a caller on its way to a connection. -/
theorem Noted.of_tries {others : Nat → Prop} {a b : Option Nat} (h : Noted log s)
    (ha : Attuned others a s) (htries : Tries a s b s') : Noted log s' := by
  induction htries with
  | calm hcalm => exact h.of_calm hcalm
  | attempt hclosed => exact h.of_eq rfl rfl ⟨[], by simp⟩
  | abandon s g =>
    rw [abandon]
    split
    · exact h
    · have hlink : Noted log { s with link := s.link.abandon g } :=
        ⟨h.generation_le, h.closed_iff⟩
      exact hlink.of_calm (calm_wakeWhere _ _)
  | connect s g => exact h.of_connect ha
  | trans h₁ _ ih₁ ih₂ => exact ih₂ (ih₁ h ha) (ha.of_tries h₁)

/-- A signal of the wire is heard. -/
theorem Noted.of_hear (h : Noted log s) (hin : s.InTune) {x : Signal} {rest : List Signal}
    (hinbox : s.inbox = x :: rest) :
    Noted (log ++ [x]) (({ s with inbox := rest } : Switchboard α ρ).handle x) := by
  have hlog : log ++ [x] ++ rest = log ++ s.inbox := by
    rw [hinbox, List.append_assoc, List.singleton_append]
  have hheard : Noted (log ++ [x]) ({ s with
      inbox := rest
      link := { s.link with phase := phaseAfter s.link.generation s.link.phase x } } :
      Switchboard α ρ) := by
    refine ⟨fun y hy => ?_, fun g hg => ?_⟩
    · rcases List.mem_append.mp hy with hold | hnew
      · exact h.generation_le y hold
      · obtain rfl := List.mem_singleton.mp hnew
        exact hin.attuned.outstanding_le _ (.inl ⟨y, hinbox ▸ List.mem_cons_self, rfl⟩)
    · rw [h.closed_iff g hg]
      change _ ↔ ∃ reason, _ ∈ log ++ [x] ++ rest
      rw [hlog]
  exact hheard.of_calm (calm_handle { s with inbox := rest } x)

/-- Signals that are handled have been heard. -/
theorem Noted.of_shift (h : Noted log s) (hin : s.InTune) {xs : List Signal}
    (hshift : Shift s xs s') : Noted (log ++ xs) s' := by
  cases hshift with
  | turn hattuned htries _ =>
    rw [List.append_nil]
    exact h.of_tries (hattuned hin) htries
  | tell _ hwire _ hinbox =>
    rw [List.append_nil]
    refine h.of_eq (hwire ▸ rfl) (hwire ▸ rfl) ?_
    obtain ⟨more, heq, hall⟩ := hinbox
    refine ⟨more, heq, fun g reason hmem => ?_⟩
    obtain ⟨k, hopened⟩ := hall _ hmem
    cases hopened
  | hangUp reason =>
    rw [List.append_nil]
    refine ⟨?_, fun g hg => ?_⟩
    · rw [wire_hear]
      exact h.generation_le
    · rw [wire_hear] at hg ⊢
      rw [inbox_hear]
      refine iff_of_true rfl ⟨reason, ?_⟩
      have hg : s.wire.connection = some g := hg
      simp [hg]
  | hear hinbox => exact h.of_hear hin hinbox

end Noted

/-- What has been heard and is still to be heard tells whether the wire has closed its
connection. -/
theorem noted_play (cap : Nat) (manual : Bool) {moves : List (Move α ρ)}
    (hmoves : ∀ m ∈ moves, m.Own) :
    Noted ((start cap manual).heardIn moves)
      ((start cap manual : Switchboard α ρ).play moves) := by
  refine play_induction cap manual
    (motive := fun moves s => Noted ((start cap manual).heardIn moves) s)
    ⟨fun _ hx => absurd hx List.not_mem_nil, fun g hg => by cases hg⟩ ?_ hmoves
  intro before m s ho hin hm h
  rw [heardIn_concat]
  exact h.of_shift hin (shift_move ho hm)

/-! ### Open again -/

/-- A move that handles a signal does nothing else. -/
theorem move_of_heard {s : Switchboard α ρ} {m : Move α ρ} {x : Signal} (h : s.heard m = [x]) :
    ∃ s₀ : Switchboard α ρ, s₀.link = s.link ∧ s.move m = s₀.handle x := by
  cases m with
  | deliver =>
    rw [heard] at h
    rw [move]
    cases hin : s.inbox with
    | nil =>
      rw [hin] at h
      cases h
    | cons y rest =>
      rw [hin] at h
      cases h
      exact ⟨{ s with inbox := rest }, rfl, rfl⟩
  | intrude y =>
    cases h
    exact ⟨s, rfl, rfl⟩
  | act step plain => cases h
  | next => cases h
  | tick instant => cases h
  | hush => cases h

/-- **When a closed link is open again.** Once a link has heard that its latest connection is
closed, its generation does not fall, and as long as it is the same the link is open exactly if
it has heard late that this connection is open, and not again that it is closed. An open link
that has heard all there is to hear is on a wire that is closed exactly if it has ever heard
that its connection is. -/
theorem closed_stays_closed_iff (cap : Nat) (manual : Bool) :
    (∀ (before : List (Move α ρ)) (m : Move α ρ) (later : List (Move α ρ)) (reason : String),
      let s := (start cap manual).play before
      let u := (s.move m).play later
      s.heard m = [.closed s.link.generation reason] →
        s.link.generation ≤ u.link.generation ∧
        (u.link.generation = s.link.generation → (u.link.isOpen ↔
          ∃ pre post, (s.move m).heardIn later = pre ++ .opened s.link.generation :: post ∧
            ∀ reason, .closed s.link.generation reason ∉ post))) ∧
    ∀ moves : List (Move α ρ), (∀ m ∈ moves, m.Own) →
      let s := (start cap manual).play moves
      s.inbox = [] → s.link.isOpen → (s.wire.isOpen = false ↔
        ∃ reason, .closed s.link.generation reason ∈ (start cap manual).heardIn moves) := by
  refine ⟨?_, ?_⟩
  · intro before m later reason s u hheard
    have ho : s.Orderly := orderly_play (orderly_start cap manual) before
    obtain ⟨s₀, hlink, hmove⟩ := move_of_heard hheard
    have hgeneration : (s.move m).link.generation = s.link.generation := by
      rw [hmove, generation_handle, hlink]
    have hphase : (s.move m).link.phase = .closed := by
      rw [hmove, phase_handle, hlink, phaseAfter, if_pos rfl]
    obtain ⟨hle, hlater⟩ := phase_play (orderly_move ho m) later
    rw [hgeneration] at hle
    refine ⟨hle, fun heq => ?_⟩
    have hlast := hlater (heq.trans hgeneration.symm) (by simp [hphase])
    rw [hphase, hgeneration] at hlast
    rw [Link.isOpen, decide_eq_true_iff, hlast]
    exact foldl_phaseAfter_eq_opened_iff
  · intro moves hmoves s hinbox hopen
    have hnoted := noted_play cap manual hmoves
    have hin := inTune_play (orderly_start cap manual) (inTune_start cap manual) hmoves
    have hon := hin.attuned.opened (phase_of_isOpen hopen)
    rw [hnoted.closed_iff _ hon, hinbox, List.append_nil]

/-- A caller asks for a connection on a wire that takes its time, and the wire breaks before the
news that the connection is open. -/
def lateOpening : List (Move Unit Unit) :=
  [.act (.wire (.openDelay 100)) trivial, .act (.ensureOpen "caller" fun _ => ()) trivial,
    .act (.wire (.close "reset")) trivial]

/-- The caller gives up, and then comes the news that the connection is open. -/
def lateNews : List (Move Unit Unit) :=
  [.next, .tick 100, .next, .deliver]

/-- The late news opens the link again. -/
theorem lateNews_opens_again :
    let s := (start 0 true).play lateOpening
    let u := (s.move .deliver).play lateNews
    s.heard .deliver = [.closed s.link.generation "reset"] ∧
      u.link.generation = s.link.generation ∧ u.link.isOpen ∧ u.inbox = [] ∧
      u.wire.isOpen = false := by
  generalize hs : (start 0 true).play lateOpening = s
  generalize hu : (s.move .deliver).play lateNews = u
  have hheard : s.heard .deliver = [.closed s.link.generation "reset"] := by
    subst hs
    decide +kernel
  have hgeneration : u.link.generation = s.link.generation := by
    subst hs hu
    decide +kernel
  have hnews : (s.move .deliver).heardIn lateNews = [.opened s.link.generation] := by
    subst hs
    decide +kernel
  have hinbox : u.inbox = [] := by
    subst hs hu
    decide +kernel
  obtain ⟨hopen, hwire⟩ := closed_stays_closed_iff (α := Unit) (ρ := Unit) 0 true
  have hagain : u.link.isOpen := by
    have hlater := hopen lateOpening .deliver lateNews "reset"
    dsimp only at hlater
    rw [hs, hu] at hlater
    exact ((hlater hheard).2 hgeneration).mpr ⟨[], [], hnews, fun _ => List.not_mem_nil⟩
  have hwhole : (start 0 true).play (lateOpening ++ .deliver :: lateNews) = u := by
    rw [play_append, hs, ← hu]
    rfl
  have hclosed : .closed u.link.generation "reset" ∈
      (start 0 true : Switchboard Unit Unit).heardIn (lateOpening ++ .deliver :: lateNews) := by
    subst hs hu
    decide +kernel
  have hiff :=
    hwire (lateOpening ++ .deliver :: lateNews) (by simp [lateOpening, lateNews, Move.Own])
  dsimp only at hiff
  rw [hwhole] at hiff
  subst hu
  exact ⟨hheard, hgeneration, hagain, hinbox, (hiff hinbox hagain).mpr ⟨"reset", hclosed⟩⟩

/-- A link that has handled the news of its closed connection is open again without an attempt,
and the wire is closed. -/
theorem closed_link_is_open_again :
    let steps : List (Step Unit Unit) :=
      [.wire (.openDelay 100), .ensureOpen "caller" fun _ => (), .wire (.close "reset"), .pump]
    let closed := (start 0 true).run steps
    let again := closed.run [.advance 100, .pump]
    (closed.link.phase = .closed ∧ closed.link.generation = 1) ∧
      again.link.isOpen ∧ again.link.generation = 1 ∧ again.inbox = [] ∧ again.ready = [] ∧
      again.timers = [] ∧ again.wire.isOpen = false := by
  decide +kernel

end VenueLink.Switchboard

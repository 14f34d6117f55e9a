import VenueLink.Proofs.Stream.Tale

/-!
# The mark of a stream

A stream is open as long as it is marked so. The mark is that of the latest connection, with one
exception: a reader that comes to its end looks first which generation counts and clears the
mark then, and a newer connection may be made in between. Its mark is cleared then although its
reader is at work.

## Main results

* `Streams.Overtaken`: the reader of another connection has cleared the mark of this one.
* `Streams.MarkedRight`: what is known of the mark after some steps.
* `Streams.MarkedRight.step`: each step keeps it.
* `Streams.Agrees.not_past_iff`: a reader is not done with the mark until some time after the
  end of its connection.
-/

namespace VenueLink.Streams

/-- The connection is the latest one, and has set the mark. -/
def Marked (s : Streams) (g : Nat) : Prop :=
  s.writer = some g ∧ s.underway ≠ some (g, .placed) ∧ s.underway ≠ some (g, .current)

/-- The reader of a connection is done with the mark. -/
def Past (s : Streams) (g : Nat) : Prop :=
  (∃ reason, s.post? g = some (.telling reason)) ∨ s.post? g = some .gone

/-- The reader of a connection is about to clear the mark. -/
def Clearing (s : Streams) (g : Nat) : Prop :=
  ∃ reason, s.post? g = some (.clearing reason)

/-- The reader of another connection has cleared the mark that the connection `g` had set. -/
def Overtaken (g : Nat) (steps : List Step) : Prop :=
  ∃ g', g' ≠ g ∧ Came (.leave g')
    (fun before => (run {} before).Clearing g' ∧ (run {} before).Marked g) steps

/-- Only a reader that comes to its end overtakes anybody. -/
theorem overtaken_concat {g : Nat} {steps : List Step} {t : Step} (ht : ∀ g', t ≠ .leave g') :
    Overtaken g (steps ++ [t]) ↔ Overtaken g steps := by
  simp only [Overtaken, came_concat, ht, false_and, or_false]

/-- It overtakes the connection that has set the mark when it is about to clear it. -/
theorem overtaken_leave {g g' : Nat} {steps : List Step} :
    Overtaken g (steps ++ [.leave g']) ↔
      Overtaken g steps ∨ (g' ≠ g ∧ (run {} steps).Clearing g' ∧ (run {} steps).Marked g) := by
  simp only [Overtaken, came_concat, and_or_left, exists_or]
  refine or_congr_right ⟨?_, fun h => ⟨g', h.1, rfl, h.2⟩⟩
  rintro ⟨g'', hne, heq, h⟩
  obtain rfl := Step.leave.inj heq
  exact ⟨hne, h⟩

/-- What is known of the mark after some steps. -/
structure MarkedRight (s : Streams) (steps : List Step) : Prop where
  isOpen : ∀ g, s.Marked g → (s.isOpen = true ↔ ¬s.Past g ∧ ¬Overtaken g steps)
  closed : s.writer = none → s.isOpen = false
  dialled : ∀ g, Overtaken g steps → g ∈ dialled steps
  /-- Before a connection has set the mark, nobody has cleared that. -/
  fresh : ∀ g, s.underway = some (g, .placed) ∨ s.underway = some (g, .current) →
    ¬Overtaken g steps

/-- There is no mark and no connection at the start. -/
theorem markedRight_nil : MarkedRight {} [] where
  isOpen g h := by cases h.1
  closed _ := rfl
  dialled g h := by
    obtain ⟨g', -, before, rest, heq, -⟩ := h
    simp at heq
  fresh g h := by
    rcases h with h | h <;> cases h

section Mark

variable {s s' : Streams} {steps : List Step}

/-- A step that has nothing to do with the mark. -/
theorem MarkedRight.keep (hm : s.MarkedRight steps) {t : Step} (ht : ∀ g, t ≠ .leave g)
    (hdial : Streams.dialled [t] = []) (hwriter : s'.writer = s.writer)
    (hunderway : s'.underway = s.underway) (hopen : s'.isOpen = s.isOpen)
    (hpast : ∀ g, s'.Past g ↔ s.Past g) : s'.MarkedRight (steps ++ [t]) where
  isOpen g hmarked := by
    rw [Marked, hwriter, hunderway] at hmarked
    rw [hopen, hpast, overtaken_concat ht, hm.isOpen g hmarked]
  closed hnone := hopen.trans (hm.closed (hwriter.symm.trans hnone))
  dialled g hover := by
    rw [dialled_concat_of_nil hdial]
    exact hm.dialled g ((overtaken_concat ht).mp hover)
  fresh g hunder := by
    rw [hunderway] at hunder
    exact mt (overtaken_concat ht).mp (hm.fresh g hunder)

/-- A reader that stays where it is stays done with the mark, or not done with it. -/
theorem past_congr {g : Nat} (h : s'.post? g = s.post? g) : s'.Past g ↔ s.Past g := by
  rw [Past, Past, h]

/-- A new connection has not set the mark yet. -/
theorem MarkedRight.dial (hm : s.MarkedRight steps) {g : Nat}
    (hfresh : (Streams.dialled (steps ++ [.dial g])).Nodup) :
    (s.dial g).MarkedRight (steps ++ [.dial g]) := by
  have hdialled : Streams.dialled (steps ++ [.dial g]) = Streams.dialled steps ++ [g] :=
    dialled_concat steps _
  have hover : ∀ g', Overtaken g' (steps ++ [.dial g]) ↔ Overtaken g' steps := fun g' =>
    overtaken_concat (by simp)
  constructor
  case isOpen =>
    rintro g' ⟨hwriter, hplaced, -⟩
    cases hwriter
    exact absurd rfl hplaced
  case closed => intro hnone; cases hnone
  case dialled =>
    intro g' h
    rw [hdialled]
    exact List.mem_append_left _ (hm.dialled g' ((hover g').mp h))
  case fresh =>
    rintro g' (hunder | hunder) h
    · cases hunder
      rw [hdialled, List.nodup_append] at hfresh
      exact hfresh.2.2 g (hm.dialled g ((hover g).mp h)) g (List.mem_singleton_self g) rfl
    · cases hunder

/-- A connection sets the mark when it gets that far. -/
theorem MarkedRight.proceed (hm : s.MarkedRight steps) (h : s.Agrees steps) :
    s.proceed.MarkedRight (steps ++ [.proceed]) := by
  have hover : ∀ g', Overtaken g' (steps ++ [.proceed]) ↔ Overtaken g' steps := fun g' =>
    overtaken_concat (by simp)
  have hdialled : ∀ g', Overtaken g' (steps ++ [.proceed]) →
      g' ∈ Streams.dialled (steps ++ [.proceed]) := by
    intro g' h'
    rw [dialled_concat_of_nil rfl]
    exact hm.dialled g' ((hover g').mp h')
  rw [Streams.proceed]
  split
  next => exact hm.keep (by simp) rfl rfl rfl rfl fun _ => Iff.rfl
  next g hunder =>
    obtain ⟨hwriter, -, -⟩ := h.underway g _ hunder
    refine ⟨?_, fun hnone => ?_, hdialled, ?_⟩
    · rintro g' ⟨hw, -, hcurrent⟩
      obtain rfl := Option.some.inj (hwriter.symm.trans hw)
      exact absurd rfl hcurrent
    · cases hwriter.symm.trans hnone
    · rintro g' (heq | heq)
      · cases heq
      · cases heq
        exact mt (hover g).mp (hm.fresh g (.inl hunder))
  next g hunder =>
    obtain ⟨hwriter, -, hno⟩ := h.underway g _ hunder
    have hnone : s.post? g = none := by
      rw [← Option.not_isSome_iff_eq_none, h.posted]
      exact hno
    refine ⟨?_, fun hnone => ?_, hdialled, ?_⟩
    · rintro g' ⟨hw, -, -⟩
      obtain rfl := Option.some.inj (hwriter.symm.trans hw)
      refine iff_of_true rfl ⟨?_, mt (hover g).mp (hm.fresh g (.inr hunder))⟩
      rintro (⟨reason, hpost⟩ | hpost) <;> cases hnone.symm.trans hpost
    · cases hwriter.symm.trans hnone
    · rintro g' (heq | heq) <;> cases heq
  next g hunder =>
    refine ⟨?_, fun hnone => hm.closed hnone, hdialled, ?_⟩
    · rintro g' ⟨hw, -, -⟩
      rw [hover]
      exact hm.isOpen g' ⟨hw, by rw [hunder]; simp, by rw [hunder]; simp⟩
    · rintro g' (heq | heq) <;> cases heq

/-- A reader that starts is not done with the mark. -/
theorem MarkedRight.start (hm : s.MarkedRight steps) (h : s.Agrees steps) {g : Nat}
    (hg : g ∈ s.spawned) : (s.start g).MarkedRight (steps ++ [.start g]) := by
  refine hm.keep (by simp) rfl rfl rfl rfl fun g' => ?_
  have hpost : (s.start g).post? g' = if g' = g then some .reading else s.post? g' :=
    post?_post _ g .reading g'
  have hnone : s.post? g = none := by
    rw [← Option.not_isSome_iff_eq_none, h.posted]
    exact (h.spawned g hg).2
  by_cases heq : g' = g
  · subst heq
    simp [Past, hpost, hnone]
  · exact past_congr (hpost.trans (if_neg heq))

/-- Nor does it get there by taking something. -/
theorem MarkedRight.take (hm : s.MarkedRight steps) (g : Nat) (i : Incoming) :
    (s.take g i).MarkedRight (steps ++ [.take g i]) := by
  rw [Streams.take]
  split
  next hreads =>
    cases i.ending? with
    | some reason =>
      refine hm.keep (by simp) rfl rfl rfl rfl fun g' => ?_
      have hpost := post?_post s g (.ended reason) g'
      by_cases heq : g' = g
      · simp [Past, post?_post, heq, hreads]
      · exact past_congr (hpost.trans (if_neg heq))
    | none => exact hm.keep (by simp) rfl rfl rfl rfl fun _ => Iff.rfl
  next => exact hm.keep (by simp) rfl rfl rfl rfl fun _ => Iff.rfl

/-- A reader that is not about to clear the mark overtakes nobody. -/
theorem overtaken_leave_of_not_clearing {g g' : Nat} (hs : run {} steps = s)
    (hno : ¬s.Clearing g') : Overtaken g (steps ++ [.leave g']) ↔ Overtaken g steps := by
  rw [overtaken_leave, hs]
  exact or_iff_left fun h => hno h.2.1

/-- A reader whose connection has come to an end gets on, and at most clears the mark. -/
theorem MarkedRight.of_leave (hm : s.MarkedRight steps) (h : s.Agrees steps)
    (hs : run {} steps = s) {g : Nat} (hkeeps : s.Keeps s')
    (hclosed : s'.isOpen = true → s.isOpen = true)
    (hopen : ∀ g', s.Marked g' →
      (s'.isOpen = true ↔ ¬s'.Past g' ∧ ¬Overtaken g' (steps ++ [.leave g]))) :
    s'.MarkedRight (steps ++ [.leave g]) where
  isOpen g' hmarked := hopen g' (by rwa [Marked, hkeeps.writer, hkeeps.underway] at hmarked)
  closed hnone := by
    have hbefore := hm.closed (hkeeps.writer.symm.trans hnone)
    exact Bool.eq_false_iff.mpr fun hopen => Bool.eq_false_iff.mp hbefore (hclosed hopen)
  dialled g' hover := by
    rw [dialled_concat_of_nil rfl]
    rcases overtaken_leave.mp hover with hbefore | ⟨-, -, hmarked⟩
    · exact hm.dialled g' hbefore
    · exact List.mem_of_getLast? (h.writer ▸ hs ▸ hmarked.1)
  fresh g' hunder hover := by
    rw [hkeeps.underway] at hunder
    rcases overtaken_leave.mp hover with hbefore | ⟨-, -, hmarked⟩
    · exact hm.fresh g' hunder hbefore
    · rw [hs] at hmarked
      exact hunder.elim hmarked.2.1 hmarked.2.2

/-- At the end of a connection its mark is cleared, and a newer one may be with it. -/
theorem MarkedRight.leave (hm : s.MarkedRight steps) (h : s.Agrees steps)
    (hs : run {} steps = s) (g : Nat) : (s.leave g).MarkedRight (steps ++ [.leave g]) := by
  rw [Streams.leave]
  split
  next reason hp =>
    have hno : ¬s.Clearing g := by simp [Clearing, hp]
    refine hm.of_leave h hs (s.keeps_post g _) id fun g' hmarked => ?_
    change s.isOpen = true ↔ _
    rw [hm.isOpen g' hmarked, overtaken_leave_of_not_clearing hs hno]
    refine and_congr_left fun _ => not_congr ?_
    by_cases heq : g' = g
    · -- the generation of the latest connection counts, so that its reader will clear the mark
      subst heq
      have hcurrent := h.current g' hmarked.1 hmarked.2.1
      simp [Past, post?_post, hp, hcurrent]
    · exact (past_congr ((post?_post s g _ g').trans (if_neg heq))).symm
  next reason hp =>
    refine hm.of_leave h hs ⟨rfl, rfl, rfl, rfl⟩ (fun hopen => by cases hopen)
      fun g' hmarked => ?_
    refine iff_of_false (by simp [post]) ?_
    rintro ⟨hpast, hover⟩
    by_cases heq : g = g'
    · exact hpast (.inl ⟨reason, by rw [post?_post, if_pos heq.symm]⟩)
    · exact hover (overtaken_leave.mpr (.inr ⟨heq, hs ▸ ⟨reason, hp⟩, hs ▸ hmarked⟩))
  next reason hp =>
    have hno : ¬s.Clearing g := by simp [Clearing, hp]
    refine hm.of_leave h hs ((s.keeps_post g .gone).trans (keeps_tell _ _)) id
      fun g' hmarked => ?_
    change s.isOpen = true ↔ _
    rw [hm.isOpen g' hmarked, overtaken_leave_of_not_clearing hs hno]
    refine and_congr_left fun _ => not_congr ?_
    have hpost : ((s.post g .gone).tell [.closed g reason]).post? g' =
        if g' = g then some .gone else s.post? g' := post?_post s g .gone g'
    by_cases heq : g' = g
    · subst heq
      simp [Past, hpost, hp]
    · exact (past_congr (hpost.trans (if_neg heq))).symm
  next hclearing _ =>
    have hno : ¬s.Clearing g := by
      rintro ⟨reason, hp⟩
      exact hclearing reason hp
    refine hm.of_leave h hs s.keeps_refl id fun g' hmarked => ?_
    rw [hm.isOpen g' hmarked, overtaken_leave_of_not_clearing hs hno]

/-- Sending leaves the mark alone. -/
theorem MarkedRight.sending (hm : s.MarkedRight steps) {t : Step} (ht : t.OfSending) :
    (s.step t).MarkedRight (steps ++ [t]) := by
  obtain ⟨hdial, -, -, hleave⟩ := ht.aside
  have hapart := s.apart_of_sending ht
  exact hm.keep hleave hdial hapart.writer hapart.underway hapart.isOpen fun g =>
    past_congr (hapart.post?_eq g)

/-- **Steps keep what is known of the mark.** -/
theorem MarkedRight.step (hm : s.MarkedRight steps) (h : s.Agrees steps) (hs : run {} steps = s)
    {t : Step} (hturn : s.Admits t) (hfresh : (Streams.dialled (steps ++ [t])).Nodup) :
    (s.step t).MarkedRight (steps ++ [t]) := by
  cases t with
  | dial g => exact hm.dial hfresh
  | proceed => exact hm.proceed h
  | start g => exact hm.start h hturn
  | take g i => exact hm.take g i
  | leave g => exact hm.leave h hs g
  | hold _ | look _ | hand _ | stop _ => exact hm.sending trivial

end Mark

/-- The reader of a connection has come to its end and is not done with the mark yet. -/
def Lingers (s : Streams) (g : Nat) : Prop :=
  ∃ reason, s.post? g = some (.ended reason) ∨ s.post? g = some (.clearing reason)

/-- A reader is done with the mark some time after the end of its connection. -/
theorem Agrees.not_past_iff {s : Streams} {steps : List Step} (h : s.Agrees steps) {g : Nat} :
    ¬s.Past g ↔ Lasting (Streams.taken g steps) ∨ s.Lingers g := by
  have hposted := h.posted g
  have hreading := h.reading g
  cases hp : s.post? g with
  | none =>
    rw [hp] at hposted
    have hno : .start g ∉ steps := fun hstart => absurd (hposted.mpr hstart) (by simp)
    simp [Past, hp, h.taken g hno, lasting_nil]
  | some p =>
    rw [hp] at hposted hreading
    have hstart : .start g ∈ steps := hposted.mp rfl
    cases p with
    | reading => simp [Past, hp, (hreading.mp rfl).2]
    | ended reason | clearing reason => simp [Past, Lingers, hp]
    | telling reason | gone =>
      have hended : ¬Lasting (Streams.taken g steps) := fun hlasting =>
        absurd (hreading.mpr ⟨hstart, hlasting⟩) (by simp)
      simp [Past, Lingers, hp, hended]

end VenueLink.Streams

import Mathlib.Data.List.Induction
import Mathlib.Data.List.Nodup
import Mathlib.Data.List.TakeWhile
import VenueLink.Stream.Basic

/-!
# What readers tell

The readers of several connections may be at work at once, and what they do falls anywhere
between the steps in which a newer connection is made and those in which messages are sent. Each
reader tells its own tale, whatever the others do.

## Main results

* `Streams.tale`: what a reader tells of all that comes in on its connection.
* `Streams.Agrees`: what is known of the readers after some steps.
* `Streams.Agrees.step`: each step keeps it.
-/

namespace VenueLink

/-- The end of a connection that its reader will tell of. -/
def Post.untold (g : Nat) : Post → List Signal
  | .reading | .gone => []
  | .ended reason | .clearing reason | .telling reason => [.closed g reason]

namespace Streams

/-! ### What happens in some steps -/

/-- The connections that are made in some steps, the latest one last. -/
def dialled (steps : List Step) : List Nat :=
  steps.filterMap fun
    | .dial g => some g
    | _ => none

/-- What has come in on a connection and is taken in some steps. -/
def taken (g : Nat) (steps : List Step) : List Incoming :=
  steps.filterMap fun
    | .take g' i => if g' = g then some i else none
    | _ => none

/-- Nothing that has come in ends the connection. -/
def Lasting (incoming : List Incoming) : Prop :=
  ∀ i ∈ incoming, i.ending? = none

instance (incoming : List Incoming) : Decidable (Lasting incoming) :=
  inferInstanceAs (Decidable (∀ i ∈ incoming, i.ending? = none))

/-- What a reader tells of all that it takes: that the connection is open, then a message for
each frame that is JSON, in their order, and at the end of the connection that it is closed, and
nothing after it. -/
def tale (g : Nat) (incoming : List Incoming) : List Signal :=
  .opened g :: ((incoming.takeWhile (·.ending?.isNone)).filterMap Incoming.payload?).map
    (.message g) ++
    ((incoming.findSome? Incoming.ending?).map (.closed g)).toList

/-- The step can come now: connections are made one after the other, the reader of a connection
starts once it has been made, and it takes something only after it has started. -/
def Admits (s : Streams) : Step → Prop
  | .dial _ => s.underway = none
  | .start g => g ∈ s.spawned
  | .take g _ => (s.post? g).isSome = true
  | _ => True

instance (s : Streams) : (t : Step) → Decidable (s.Admits t)
  | .dial _ => inferInstanceAs (Decidable (s.underway = none))
  | .start g => inferInstanceAs (Decidable (g ∈ s.spawned))
  | .take g _ => inferInstanceAs (Decidable ((s.post? g).isSome = true))
  | .proceed | .leave _ | .hold _ | .look _ | .hand _ | .stop _ => .isTrue trivial

/-- Each of the steps comes when it can. -/
def InTurn : Streams → List Step → Prop
  | _, [] => True
  | s, t :: rest => s.Admits t ∧ (s.step t).InTurn rest

instance decidableInTurn : (s : Streams) → (steps : List Step) → Decidable (s.InTurn steps)
  | _, [] => .isTrue trivial
  | s, t :: rest =>
    have := decidableInTurn (s.step t) rest
    inferInstanceAs (Decidable (_ ∧ _))

/-- Steps come in turn when all but the last do, and the last can come after them. -/
theorem inTurn_concat {s : Streams} {steps : List Step} {t : Step} :
    s.InTurn (steps ++ [t]) ↔ s.InTurn steps ∧ (s.run steps).Admits t := by
  induction steps generalizing s with
  | nil => exact ⟨fun h => ⟨trivial, h.1⟩, fun h => ⟨h.2, trivial⟩⟩
  | cons t' rest ih =>
    rw [List.cons_append, InTurn, ih, InTurn, and_assoc]
    rfl

/-- The last step is taken from where the others have led. -/
theorem run_concat (s : Streams) (steps : List Step) (t : Step) :
    s.run (steps ++ [t]) = (s.run steps).step t :=
  List.foldl_concat step s t steps

/-! ### Tales -/

/-- Nothing has ended a connection on which nothing has come in. -/
theorem lasting_nil : Lasting [] :=
  fun _ hi => absurd hi List.not_mem_nil

/-- A connection lasts through one thing more unless that ends it. -/
theorem lasting_concat {incoming : List Incoming} {i : Incoming} :
    Lasting (incoming ++ [i]) ↔ Lasting incoming ∧ i.ending? = none := by
  simp [Lasting, or_imp, forall_and]

/-- Before the end of the connection a reader tells more with each thing that it takes. -/
theorem tale_concat {g : Nat} {incoming : List Incoming} (h : Lasting incoming) (i : Incoming) :
    tale g (incoming ++ [i]) = tale g incoming ++ match i.ending? with
      | some reason => [.closed g reason]
      | none => i.payload?.toList.map (.message g) := by
  have htake : incoming.takeWhile (·.ending?.isNone) = incoming :=
    List.takeWhile_eq_self_iff.mpr fun j hj => by rw [h j hj]; rfl
  have hfind : incoming.findSome? Incoming.ending? = none := List.findSome?_eq_none_iff.mpr h
  rw [tale, tale, List.takeWhile_append, htake, if_pos rfl, List.findSome?_append, hfind]
  cases hi : i.ending? with
  | some reason => simp [hi]
  | none => cases hp : i.payload? <;> simp [hi, hp]

/-- After it, nothing. -/
theorem tale_concat_of_ended {g : Nat} {incoming : List Incoming} (h : ¬Lasting incoming)
    (i : Incoming) : tale g (incoming ++ [i]) = tale g incoming := by
  have hends : ∃ j ∈ incoming, j.ending? ≠ none := by
    simpa [Lasting] using h
  have htake : (incoming ++ [i]).takeWhile (·.ending?.isNone) =
      incoming.takeWhile (·.ending?.isNone) := by
    obtain ⟨j, hj, hne⟩ := hends
    rw [List.takeWhile_append, if_neg]
    intro hlength
    have hall := List.takeWhile_eq_self_iff.mp
      ((List.takeWhile_prefix (·.ending?.isNone)).eq_of_length hlength) j hj
    exact hne (Option.isNone_iff_eq_none.mp hall)
  have hfind : (incoming.findSome? Incoming.ending?).isSome = true := by
    obtain ⟨j, hj, hne⟩ := hends
    rw [List.findSome?_isSome_iff]
    exact ⟨j, hj, Option.isSome_iff_ne_none.mpr hne⟩
  rw [tale, tale, htake, List.findSome?_append, Option.or_of_isSome hfind]

/-- A step has come at a time of which something holds. -/
def Came (t : Step) (p : List Step → Prop) (steps : List Step) : Prop :=
  ∃ before rest, steps = before ++ t :: rest ∧ p before

/-- A step has come before, or it is the last one and comes now. -/
theorem came_concat {t t' : Step} {p : List Step → Prop} {steps : List Step} :
    Came t p (steps ++ [t']) ↔ Came t p steps ∨ (t' = t ∧ p steps) := by
  constructor
  · rintro ⟨before, rest, heq, hp⟩
    rcases List.eq_nil_or_concat rest with rfl | ⟨rest, last, rfl⟩
    · obtain ⟨rfl, htt⟩ := List.append_inj' heq rfl
      exact .inr ⟨(List.cons.inj htt).1, hp⟩
    · rw [List.concat_eq_append, ← List.cons_append, ← List.append_assoc] at heq
      exact .inl ⟨before, rest, (List.append_inj' heq rfl).1, hp⟩
  · rintro (⟨before, rest, rfl, hp⟩ | ⟨rfl, hp⟩)
    · exact ⟨before, rest ++ [t'], by rw [List.append_assoc, List.cons_append], hp⟩
    · exact ⟨steps, [], rfl, hp⟩

/-- What has come stays so. -/
theorem Came.concat {t : Step} {p : List Step → Prop} {steps : List Step} (h : Came t p steps)
    (t' : Step) : Came t p (steps ++ [t']) :=
  came_concat.mpr (.inl h)

/-! ### Where readers are -/

/-- What is kept for one connection stays when another one is taken off the list. -/
theorem lookup_filter_ne {β : Type} {g g' : Nat} (h : g' ≠ g) (l : List (Nat × β)) :
    (l.filter (·.1 ≠ g)).lookup g' = l.lookup g' := by
  induction l with
  | nil => rfl
  | cons x rest ih =>
    by_cases hx : x.1 = g
    · have hne : (g' == x.1) = false := beq_eq_false_iff_ne.mpr (hx ▸ h)
      rw [List.filter_cons_of_neg (by simpa using hx), ih, List.lookup_cons, hne]
    · rw [List.filter_cons_of_pos (by simpa using hx), List.lookup_cons, List.lookup_cons, ih]

/-- A reader gets on, and nobody else. -/
theorem post?_post (s : Streams) (g : Nat) (p : Post) (g' : Nat) :
    (s.post g p).post? g' = if g' = g then some p else s.post? g' := by
  change List.lookup g' ((g, p) :: s.posts.filter (·.1 ≠ g)) = _
  rw [List.lookup_cons]
  by_cases h : g' = g
  · rw [if_pos h, beq_iff_eq.mpr h]
  · rw [if_neg h, beq_eq_false_iff_ne.mpr h]
    exact lookup_filter_ne h s.posts

/-- The end of a connection that has not been told yet. -/
def untold (s : Streams) (g : Nat) : List Signal :=
  (s.post? g).elim [] (Post.untold g)

/-- What is left to tell depends on where the reader is. -/
theorem untold_of_post? {s : Streams} {g : Nat} {p : Post} (h : s.post? g = some p) :
    s.untold g = p.untold g := by
  rw [untold, h, Option.elim_some]

/-- A reader that stays where it is has as much to tell as before. -/
theorem untold_congr {s s' : Streams} {g : Nat} (h : s'.post? g = s.post? g) :
    s'.untold g = s.untold g := by
  rw [untold, untold, h]

/-! ### Readers -/

/-- What is known of the readers after some steps. -/
structure Agrees (s : Streams) (steps : List Step) : Prop where
  writer : s.writer = (dialled steps).getLast?
  signals : ∀ g, s.signals.filter (·.generation = g) ++ s.untold g =
    if .start g ∈ steps then tale g (taken g steps) else []
  posted : ∀ g, (s.post? g).isSome = true ↔ .start g ∈ steps
  /-- A reader is at work from its start to the end of its connection. -/
  reading : ∀ g, s.post? g = some .reading ↔ .start g ∈ steps ∧ Lasting (taken g steps)
  started : ∀ g, .start g ∈ steps → g ∈ dialled steps
  taken : ∀ g, .start g ∉ steps → Streams.taken g steps = []
  spawned : ∀ g ∈ s.spawned, g ∈ dialled steps ∧ .start g ∉ steps
  spawnedNodup : s.spawned.Nodup
  underway : ∀ g stage, s.underway = some (g, stage) →
    s.writer = some g ∧ g ∉ s.spawned ∧ .start g ∉ steps
  /-- But for the first moment of a newer connection, the generation that counts is the latest
  one. -/
  current : ∀ g, s.writer = some g → s.underway ≠ some (g, .placed) → s.current = g

/-- The invariant holds at the start, where there are no readers. -/
theorem agrees_nil : Agrees {} [] where
  writer := rfl
  signals _ := rfl
  posted g := by simp [post?]
  reading g := by simp [post?]
  started g hg := absurd hg List.not_mem_nil
  taken _ _ := rfl
  spawned g hg := absurd hg List.not_mem_nil
  spawnedNodup := List.nodup_nil
  underway g stage h := by cases h
  current g h := by cases h

section Step

variable {s s' : Streams} {steps : List Step}

/-- The connection of the last step comes last. -/
theorem dialled_concat (steps : List Step) (t : Step) :
    dialled (steps ++ [t]) = dialled steps ++ dialled [t] :=
  List.filterMap_append

/-- What the last step takes comes last. -/
theorem taken_concat (g : Nat) (steps : List Step) (t : Step) :
    taken g (steps ++ [t]) = taken g steps ++ taken g [t] :=
  List.filterMap_append

/-- A step that makes no connection adds none. -/
theorem dialled_concat_of_nil {t : Step} (h : dialled [t] = []) :
    dialled (steps ++ [t]) = dialled steps := by
  rw [dialled_concat, h, List.append_nil]

/-- A step that takes nothing on a connection adds nothing there. -/
theorem taken_concat_of_nil {g : Nat} {t : Step} (h : taken g [t] = []) :
    taken g (steps ++ [t]) = taken g steps := by
  rw [taken_concat, h, List.append_nil]

/-- What is taken on a connection counts for that one only. -/
theorem taken_take (g g' : Nat) (i : Incoming) :
    taken g [.take g' i] = if g' = g then [i] else [] := by
  by_cases h : g' = g <;> simp [taken, h]

/-- Only its own start starts a reader. -/
theorem start_mem_concat {g : Nat} {t : Step} (h : t ≠ .start g) :
    .start g ∈ steps ++ [t] ↔ .start g ∈ steps := by
  rw [List.mem_append, List.mem_singleton]
  exact or_iff_left (Ne.symm h)

/-- A step in which no connection is made, starts or takes anything. -/
theorem Agrees.concat (h : s.Agrees steps) {t : Step} (hdial : dialled [t] = [])
    (hstart : ∀ g, t ≠ .start g) (htake : ∀ g, Streams.taken g [t] = []) :
    s.Agrees (steps ++ [t]) := by
  have hdialled : dialled (steps ++ [t]) = dialled steps := dialled_concat_of_nil hdial
  have htaken : ∀ g, Streams.taken g (steps ++ [t]) = Streams.taken g steps := fun g =>
    taken_concat_of_nil (htake g)
  have hstarted : ∀ g, .start g ∈ steps ++ [t] ↔ .start g ∈ steps :=
    fun g => start_mem_concat (hstart g)
  exact { h with
    writer := hdialled ▸ h.writer
    signals := by simpa only [hstarted, htaken] using h.signals
    posted := by simpa only [hstarted] using h.posted
    reading := by simpa only [hstarted, htaken] using h.reading
    started := by simpa only [hstarted, hdialled] using h.started
    taken := by simpa only [hstarted, htaken] using h.taken
    spawned := by simpa only [hstarted, hdialled] using h.spawned
    underway := by simpa only [hstarted] using h.underway }

/-- A new connection takes over the writer and has no reader yet. -/
theorem Agrees.dial (h : s.Agrees steps) {g : Nat}
    (hfresh : (dialled (steps ++ [.dial g])).Nodup) :
    (s.dial g).Agrees (steps ++ [.dial g]) := by
  have hdialled : dialled (steps ++ [.dial g]) = dialled steps ++ [g] := dialled_concat steps _
  have htaken : ∀ g', Streams.taken g' (steps ++ [.dial g]) = Streams.taken g' steps := fun _ =>
    taken_concat_of_nil rfl
  have hstart : ∀ g', .start g' ∈ steps ++ [.dial g] ↔ .start g' ∈ steps := fun g' =>
    start_mem_concat (by simp)
  have hnew : g ∉ dialled steps := by
    rw [hdialled, List.nodup_append] at hfresh
    exact fun hg => hfresh.2.2 g hg g (List.mem_singleton_self g) rfl
  exact {
    writer := by rw [hdialled, List.getLast?_concat]; rfl
    signals := fun g' => (h.signals g').trans (by simp only [hstart, htaken])
    posted := fun g' => by rw [hstart]; exact h.posted g'
    reading := fun g' => by rw [htaken, hstart]; exact h.reading g'
    started := fun g' hg' => by
      rw [hdialled]
      exact List.mem_append_left _ (h.started g' ((hstart g').mp hg'))
    taken := fun g' hg' => by rw [htaken]; exact h.taken g' (mt (hstart g').mpr hg')
    spawned := fun g' hg' => by
      obtain ⟨hmem, hno⟩ := h.spawned g' hg'
      rw [hdialled, hstart]
      exact ⟨List.mem_append_left _ hmem, hno⟩
    spawnedNodup := h.spawnedNodup
    underway := fun g' stage heq => by
      cases heq
      rw [hstart]
      exact ⟨rfl, fun hg => hnew (h.spawned g hg).1, fun hg => hnew (h.started g hg)⟩
    current := fun g' heq hne => by
      cases heq
      exact absurd rfl hne }

/-- A connection that is being made gets on. -/
theorem Agrees.proceed (h : s.Agrees steps) : s.proceed.Agrees (steps ++ [.proceed]) := by
  refine Agrees.concat ?_ rfl (by simp) fun _ => rfl
  rw [Streams.proceed]
  split
  next => exact h
  next g hunder =>
    obtain ⟨hwriter, hspawned, hstart⟩ := h.underway g _ hunder
    exact { h with
      underway := by rintro g' stage heq; cases heq; exact ⟨hwriter, hspawned, hstart⟩
      current := fun g' heq _ => Option.some.inj (hwriter.symm.trans heq) }
  next g hunder =>
    obtain ⟨hwriter, hspawned, hstart⟩ := h.underway g _ hunder
    exact { h with
      underway := by rintro g' stage heq; cases heq; exact ⟨hwriter, hspawned, hstart⟩
      current := fun g' heq _ => h.current g' heq (by rw [hunder]; simp) }
  next g hunder =>
    obtain ⟨hwriter, hspawned, hstart⟩ := h.underway g _ hunder
    have hmem : g ∈ dialled steps := List.mem_of_getLast? (h.writer ▸ hwriter)
    exact { h with
      spawned := by
        intro g' hg'
        rcases List.mem_cons.mp hg' with rfl | hg'
        · exact ⟨hmem, hstart⟩
        · exact h.spawned g' hg'
      spawnedNodup := List.nodup_cons.mpr ⟨hspawned, h.spawnedNodup⟩
      underway := by rintro g' stage heq; cases heq
      current := fun g' heq _ => h.current g' heq (by rw [hunder]; simp) }

/-- What one reader tells is no signal of another one. -/
theorem filter_append_of_generation {signals told : List Signal} {g : Nat}
    (h : ∀ x ∈ told, x.generation = g) (g' : Nat) :
    (signals ++ told).filter (·.generation = g') =
      signals.filter (·.generation = g') ++ if g = g' then told else [] := by
  rw [List.filter_append]
  congr 1
  split
  next heq => exact List.filter_eq_self.mpr fun x hx => by simpa using (h x hx).trans heq
  next hne => exact List.filter_eq_nil_iff.mpr fun x hx => by simpa [h x hx] using hne

/-- A reader starts by telling that its connection is open. -/
theorem Agrees.start (h : s.Agrees steps) {g : Nat} (hg : g ∈ s.spawned) :
    (s.start g).Agrees (steps ++ [.start g]) := by
  obtain ⟨hmem, hno⟩ := h.spawned g hg
  have hdialled : dialled (steps ++ [.start g]) = dialled steps := dialled_concat_of_nil rfl
  have htaken :
      ∀ g', Streams.taken g' (steps ++ [.start g]) = Streams.taken g' steps := fun _ =>
    taken_concat_of_nil rfl
  have hstart : ∀ g', .start g' ∈ steps ++ [.start g] ↔
      .start g' ∈ steps ∨ g' = g := fun g' => by
    simp
  have hpost :
      ∀ g', (s.start g).post? g' = if g' = g then some .reading else s.post? g' := fun g' =>
    post?_post _ g .reading g'
  constructor
  case writer => rw [hdialled]; exact h.writer
  case signals =>
    intro g'
    have htold : ∀ x ∈ [Signal.opened g], x.generation = g := by simp [Signal.generation]
    change (s.signals ++ [Signal.opened g]).filter _ ++ _ = _
    rw [filter_append_of_generation htold, htaken]
    by_cases heq : g' = g
    · subst heq
      have hbefore := h.signals g'
      rw [if_neg hno, List.append_eq_nil_iff] at hbefore
      rw [hbefore.1, if_pos rfl, if_pos ((hstart g').mpr (.inr rfl)), h.taken g' hno,
        untold_of_post? ((hpost g').trans (if_pos rfl))]
      rfl
    · rw [if_neg (Ne.symm heq), List.append_nil, untold_congr ((hpost g').trans (if_neg heq)),
        h.signals g']
      simp [hstart, heq]
  case posted =>
    intro g'
    rw [hpost, hstart, ← h.posted g']
    by_cases heq : g' = g <;> simp [heq]
  case reading =>
    intro g'
    rw [hpost, hstart, htaken]
    by_cases heq : g' = g
    · subst heq
      simp [h.taken g' hno, lasting_nil]
    · simp [heq, h.reading g']
  case started =>
    intro g' hg'
    rw [hdialled]
    rcases (hstart g').mp hg' with hs | rfl
    · exact h.started g' hs
    · exact hmem
  case taken =>
    intro g' hg'
    rw [htaken]
    exact h.taken g' fun hs => hg' ((hstart g').mpr (.inl hs))
  case spawned =>
    intro g' hg'
    obtain ⟨hne, hg'⟩ := (h.spawnedNodup.mem_erase_iff).mp hg'
    obtain ⟨hd, hs⟩ := h.spawned g' hg'
    rw [hdialled, hstart]
    exact ⟨hd, not_or.mpr ⟨hs, hne⟩⟩
  case spawnedNodup => exact h.spawnedNodup.erase g
  case underway =>
    intro g' stage hunder
    obtain ⟨hw, hsp, hs⟩ := h.underway g' stage hunder
    rw [hstart]
    exact ⟨hw, fun he => hsp (List.mem_of_mem_erase he),
      not_or.mpr ⟨hs, fun heq => hsp (heq ▸ hg)⟩⟩
  case current => exact h.current

/-- Nothing happens to the making of connections. -/
structure Keeps (s s' : Streams) : Prop where
  writer : s'.writer = s.writer
  current : s'.current = s.current
  underway : s'.underway = s.underway
  spawned : s'.spawned = s.spawned

/-- Nothing happens where nothing changes. -/
theorem keeps_refl (s : Streams) : s.Keeps s :=
  ⟨rfl, rfl, rfl, rfl⟩

/-- The same for one change after the other. -/
theorem Keeps.trans {s₁ s₂ s₃ : Streams} (h : s₁.Keeps s₂) (h' : s₂.Keeps s₃) : s₁.Keeps s₃ :=
  ⟨h'.writer.trans h.writer, h'.current.trans h.current, h'.underway.trans h.underway,
    h'.spawned.trans h.spawned⟩

/-- Where a reader stands has nothing to do with the making of connections. -/
theorem keeps_post (s : Streams) (g : Nat) (p : Post) : s.Keeps (s.post g p) :=
  ⟨rfl, rfl, rfl, rfl⟩

/-- Nor has what it tells. -/
theorem keeps_tell (s : Streams) (told : List Signal) : s.Keeps (s.tell told) :=
  ⟨rfl, rfl, rfl, rfl⟩

/-- Readers get on and tell what they have left to tell, and no connection is made. -/
theorem Agrees.of_keeps (h : s.Agrees steps) (hkeeps : s.Keeps s')
    (hsignals : ∀ g, s'.signals.filter (·.generation = g) ++ s'.untold g =
      s.signals.filter (·.generation = g) ++ s.untold g)
    (hposted : ∀ g, (s'.post? g).isSome = true ↔ (s.post? g).isSome = true)
    (hreading : ∀ g, s'.post? g = some .reading ↔ s.post? g = some .reading) :
    s'.Agrees steps where
  writer := hkeeps.writer.trans h.writer
  signals g := (hsignals g).trans (h.signals g)
  posted g := (hposted g).trans (h.posted g)
  reading g := (hreading g).trans (h.reading g)
  started := h.started
  taken := h.taken
  spawned := by simpa only [hkeeps.spawned] using h.spawned
  spawnedNodup := by rw [hkeeps.spawned]; exact h.spawnedNodup
  underway := by simpa only [hkeeps.underway, hkeeps.writer, hkeeps.spawned] using h.underway
  current := by simpa only [hkeeps.underway, hkeeps.writer, hkeeps.current] using h.current

/-- What has come in on a connection is taken, and the reader goes on with its tale. -/
theorem Agrees.of_take (h : s.Agrees steps) (hkeeps : s.Keeps s') {g : Nat} {i : Incoming}
    (hg : .start g ∈ steps) (hothers : ∀ g', g' ≠ g → s'.post? g' = s.post? g')
    (hposted : (s'.post? g).isSome = true)
    (hreading : s'.post? g = some .reading ↔ Lasting (Streams.taken g steps ++ [i]))
    {told : List Signal} (hsignals : s'.signals = s.signals ++ told)
    (htold : ∀ x ∈ told, x.generation = g)
    (htale : ∀ before, before ++ s.untold g = tale g (Streams.taken g steps) →
      before ++ told ++ s'.untold g = tale g (Streams.taken g steps ++ [i])) :
    s'.Agrees (steps ++ [.take g i]) := by
  have hdialled : dialled (steps ++ [.take g i]) = dialled steps := dialled_concat_of_nil rfl
  have hstart : ∀ g', .start g' ∈ steps ++ [.take g i] ↔ .start g' ∈ steps := fun g' =>
    start_mem_concat (by simp)
  have htaken : ∀ g', Streams.taken g' (steps ++ [.take g i]) =
      Streams.taken g' steps ++ if g = g' then [i] else [] := fun g' => by
    rw [taken_concat, taken_take]
  constructor
  case writer => rw [hkeeps.writer, hdialled, h.writer]
  case signals =>
    intro g'
    have hbefore := h.signals g'
    rw [hsignals, filter_append_of_generation htold, htaken]
    by_cases heq : g = g'
    · subst heq
      rw [if_pos hg] at hbefore
      rw [if_pos rfl, if_pos rfl, if_pos ((hstart g).mpr hg), htale _ hbefore]
    · rw [if_neg heq, if_neg heq, List.append_nil, List.append_nil,
        untold_congr (hothers g' (Ne.symm heq)), hbefore]
      simp only [hstart]
  case posted =>
    intro g'
    rw [hstart]
    by_cases heq : g' = g
    · rw [heq, hposted]
      exact iff_of_true rfl hg
    · rw [hothers g' heq, h.posted]
  case reading =>
    intro g'
    rw [hstart, htaken]
    by_cases heq : g' = g
    · rw [heq, hreading, if_pos rfl]
      exact (and_iff_right hg).symm
    · rw [hothers g' heq, if_neg (Ne.symm heq), List.append_nil, h.reading]
  case started => simpa only [hstart, hdialled] using h.started
  case taken =>
    intro g' hg'
    have hno : .start g' ∉ steps := mt (hstart g').mpr hg'
    have hne : g ≠ g' := fun heq => hno (heq ▸ hg)
    rw [htaken, if_neg hne, List.append_nil, h.taken g' hno]
  case spawned => simpa only [hkeeps.spawned, hstart, hdialled] using h.spawned
  case spawnedNodup => rw [hkeeps.spawned]; exact h.spawnedNodup
  case underway =>
    simpa only [hkeeps.underway, hkeeps.writer, hkeeps.spawned, hstart] using h.underway
  case current => simpa only [hkeeps.underway, hkeeps.writer, hkeeps.current] using h.current

/-- A reader takes what has come in on its connection. -/
theorem Agrees.take (h : s.Agrees steps) {g : Nat} (hg : (s.post? g).isSome = true)
    (i : Incoming) : (s.take g i).Agrees (steps ++ [.take g i]) := by
  have hstarted : .start g ∈ steps := (h.posted g).mp hg
  rw [Streams.take]
  by_cases hreads : s.post? g = some .reading
  · have hlasting := ((h.reading g).mp hreads).2
    have huntold : s.untold g = [] := untold_of_post? hreads
    rw [if_pos hreads]
    cases hending : i.ending? with
    | some reason =>
      change (s.post g (.ended reason)).Agrees _
      have hpost : (s.post g (.ended reason)).post? g = some (.ended reason) := by
        rw [post?_post, if_pos rfl]
      refine h.of_take (s.keeps_post g _) hstarted (fun g' hne => ?_) ?_ ?_
        (List.append_nil _).symm
        (by simp) fun before hbefore => ?_
      · rw [post?_post, if_neg hne]
      · rw [hpost]; rfl
      · simp [hpost, lasting_concat, hending]
      · rw [huntold, List.append_nil] at hbefore
        rw [tale_concat hlasting, hending, untold_of_post? hpost, List.append_nil, hbefore]
        rfl
    | none =>
      change (s.tell (i.payload?.toList.map (.message g))).Agrees _
      refine h.of_take (s.keeps_tell _) hstarted (fun _ _ => rfl) hg ?_ rfl (fun x hx => ?_)
        fun before hbefore => ?_
      · exact iff_of_true hreads (lasting_concat.mpr ⟨hlasting, hending⟩)
      · obtain ⟨payload, -, rfl⟩ := List.mem_map.mp hx
        rfl
      · rw [huntold, List.append_nil] at hbefore
        have hsame : (s.tell (i.payload?.toList.map (.message g))).untold g = [] := huntold
        rw [tale_concat hlasting, hending, hsame, List.append_nil, hbefore]
  · have hended : ¬Lasting (Streams.taken g steps) := fun hlasting =>
      hreads ((h.reading g).mpr ⟨hstarted, hlasting⟩)
    rw [if_neg hreads]
    refine h.of_take s.keeps_refl hstarted (fun _ _ => rfl) hg ?_ (List.append_nil _).symm
      (by simp) fun before hbefore => ?_
    · exact iff_of_false hreads fun hlasting => hended (lasting_concat.mp hlasting).1
    · rw [tale_concat_of_ended hended, List.append_nil, hbefore]

/-- A reader whose connection has come to an end gets on. -/
theorem Agrees.of_leave (h : s.Agrees steps) (hkeeps : s.Keeps s') {g : Nat} {p p' : Post}
    (hp : s.post? g = some p) (hne : p ≠ .reading) (hne' : p' ≠ .reading)
    (hpost : ∀ g', s'.post? g' = if g' = g then some p' else s.post? g')
    {told : List Signal} (hsignals : s'.signals = s.signals ++ told)
    (htold : ∀ x ∈ told, x.generation = g) (huntold : told ++ p'.untold g = p.untold g) :
    s'.Agrees steps := by
  refine h.of_keeps hkeeps (fun g' => ?_) (fun g' => ?_) fun g' => ?_
  · rw [hsignals, filter_append_of_generation htold]
    by_cases heq : g' = g
    · rw [heq, if_pos rfl, untold_of_post? hp, untold_of_post? ((hpost g).trans (if_pos rfl)),
        List.append_assoc, huntold]
    · rw [if_neg (Ne.symm heq), List.append_nil, untold_congr ((hpost g').trans (if_neg heq))]
  · rw [hpost]
    by_cases heq : g' = g <;> simp [heq, hp]
  · rw [hpost]
    by_cases heq : g' = g <;> simp [heq, hp, hne, hne']

/-- A reader does what comes next at the end of its connection. -/
theorem Agrees.leave (h : s.Agrees steps) (g : Nat) :
    (s.leave g).Agrees (steps ++ [.leave g]) := by
  refine Agrees.concat ?_ rfl (by simp) fun _ => rfl
  rw [Streams.leave]
  split
  next reason hp =>
    refine h.of_leave (s.keeps_post g _) hp (by simp) ?_ (post?_post s g _)
      (List.append_nil _).symm (by simp) ?_
    · split <;> simp
    · split <;> rfl
  next reason hp =>
    exact h.of_leave ⟨rfl, rfl, rfl, rfl⟩ hp (by simp) (by simp)
      (post?_post _ g (.telling reason))
      (List.append_nil _).symm (by simp) rfl
  next reason hp =>
    exact h.of_leave ⟨rfl, rfl, rfl, rfl⟩ hp (by simp) (by simp) (post?_post s g .gone) rfl
      (by simp [Signal.generation]) rfl
  next => exact h

/-- The step belongs to the sending of a message. -/
def Step.OfSending : Step → Prop
  | .hold _ | .look _ | .hand _ | .stop _ => True
  | _ => False

/-- Sending touches neither the readers nor the mark. -/
structure Apart (s s' : Streams) : Prop extends s.Keeps s' where
  posts : s'.posts = s.posts
  signals : s'.signals = s.signals
  isOpen : s'.isOpen = s.isOpen

/-- The steps of sending are such. -/
theorem apart_of_sending (s : Streams) {t : Step} (ht : t.OfSending) : s.Apart (s.step t) := by
  cases t with
  | hold message =>
    rw [Streams.step]
    split <;> exact ⟨⟨rfl, rfl, rfl, rfl⟩, rfl, rfl, rfl⟩
  | look d =>
    rw [Streams.step]
    split
    · split <;> exact ⟨⟨rfl, rfl, rfl, rfl⟩, rfl, rfl, rfl⟩
    · exact ⟨⟨rfl, rfl, rfl, rfl⟩, rfl, rfl, rfl⟩
  | hand d =>
    rw [Streams.step]
    split
    · dsimp only
      rw [Streams.hand]
      split <;> exact ⟨⟨rfl, rfl, rfl, rfl⟩, rfl, rfl, rfl⟩
    · exact ⟨⟨rfl, rfl, rfl, rfl⟩, rfl, rfl, rfl⟩
  | stop g => exact ⟨⟨rfl, rfl, rfl, rfl⟩, rfl, rfl, rfl⟩
  | dial _ | proceed | start _ | take _ _ | leave _ => exact ht.elim

/-- Every reader stays where it is. -/
theorem Apart.post?_eq (h : s.Apart s') (g : Nat) : s'.post? g = s.post? g := by
  rw [post?, h.posts, post?]

/-- What is known of the readers does not depend on what is sent. -/
theorem Agrees.of_apart (h : s.Agrees steps) (hapart : s.Apart s') : s'.Agrees steps :=
  h.of_keeps hapart.toKeeps
    (fun g => by rw [hapart.signals, untold_congr (hapart.post?_eq g)])
    (fun g => by rw [hapart.post?_eq]) fun g => by rw [hapart.post?_eq]

/-- No connection is made, started or read from, and no reader comes to its end. -/
theorem Step.OfSending.aside {t : Step} (ht : t.OfSending) :
    dialled [t] = [] ∧ (∀ g, t ≠ .start g) ∧ (∀ g, Streams.taken g [t] = []) ∧
      ∀ g, t ≠ .leave g := by
  cases t with
  | hold _ | look _ | hand _ | stop _ => simp [dialled, Streams.taken]
  | dial _ | proceed | start _ | take _ _ | leave _ => exact ht.elim

/-- So a step of sending keeps it. -/
theorem Agrees.sending (h : s.Agrees steps) {t : Step} (ht : t.OfSending) :
    (s.step t).Agrees (steps ++ [t]) := by
  obtain ⟨hdial, hstart, htake, -⟩ := ht.aside
  exact (h.of_apart (s.apart_of_sending ht)).concat hdial hstart htake

/-- **Steps keep what is known of the readers.** -/
theorem Agrees.step (h : s.Agrees steps) {t : Step} (hturn : s.Admits t)
    (hfresh : (dialled (steps ++ [t])).Nodup) : (s.step t).Agrees (steps ++ [t]) := by
  cases t with
  | dial g => exact h.dial hfresh
  | proceed => exact h.proceed
  | start g => exact h.start hturn
  | take g i => exact h.take hturn i
  | leave g => exact h.leave g
  | hold _ | look _ | hand _ | stop _ => exact h.sending trivial

end Step

end Streams

end VenueLink

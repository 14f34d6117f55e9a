import VenueLink.Proofs.Switchboard.Answering

/-!
# The trail of a caller

Whoever has been launched on a plan runs its exchanges one after the other: the lines that it
has in the book are the exchanges that have ended for it, in the order in which the plan went
over them, and the one that it is at, unless it has answered. So at any time the plan and the
ends of those exchanges say where the caller is, or what it has answered.

## Main results

* `Plan.Along`: how a plan goes over exchanges that have ended.
* `trod_pursue`, `trod_occur`: one turn, and one event, take a caller on along its plan.
* `trod_of_launched`: where a caller is at any time after its launch, and what it has in the
  book.
-/

namespace VenueLink

open Exchange Correlator

variable {α ρ σ : Type}

/-- An exchange of a caller that has ended. -/
structure Exchange.Leg (α : Type) where
  id : Nat
  spec : Spec α
  resolution : Resolution α

/-- The line of the book for a leg, with its place. -/
def Exchange.Leg.line (l : Leg α) : Nat × Spec α :=
  (l.id, l.spec)

namespace Exchange.Plan

/-- A plan goes over some legs, one after the other, and then on as another plan. -/
inductive Along : {n m : Nat} → Plan α ρ n → List (Leg α) → Plan α ρ m → Prop where
  | here {n : Nat} (p : Plan α ρ n) : Along p [] p
  | past {n m : Nat} {spec : Spec α} {next : Resolution α → Plan α ρ n} {ex : Nat}
      {r : Resolution α} {legs : List (Leg α)} {p : Plan α ρ m} :
      Along (next r) legs p → Along (.exchange spec next) (⟨ex, spec, r⟩ :: legs) p

section Along

variable {l m n : Nat} {legs more : List (Leg α)}

/-- Some legs and then others. -/
theorem Along.trans {p₁ : Plan α ρ l} {p₂ : Plan α ρ m} {p₃ : Plan α ρ n}
    (h₁ : Along p₁ legs p₂) (h₂ : Along p₂ more p₃) : Along p₁ (legs ++ more) p₃ := by
  induction h₁ with
  | here p => exact h₂
  | past _ ih => exact .past (ih h₂)

/-- One more exchange has ended. -/
theorem Along.snoc {p : Plan α ρ l} {spec : Spec α} {next : Resolution α → Plan α ρ m}
    (h : Along p legs (.exchange spec next)) (ex : Nat) (r : Resolution α) :
    Along p (legs ++ [⟨ex, spec, r⟩]) (next r) :=
  h.trans (.past (.here _))

/-- Nothing comes after a report. -/
theorem Along.of_report {r : ρ} {q : Plan α ρ n} (h : (.report r : Plan α ρ m).Along legs q) :
    legs = [] ∧ (.report r : Plan α ρ m).Along [] q := by
  cases h
  exact ⟨rfl, .here _⟩

/-- A plan with another report goes over the same exchanges. -/
theorem Along.of_map {f : ρ → σ} {p : Plan α ρ m} {q : Plan α σ n}
    (h : Along (p.map f) legs q) : ∃ q₀ : Plan α ρ n, Along p legs q₀ ∧ q = q₀.map f := by
  generalize hp : p.map f = p' at h
  induction h with
  | here p' => exact ⟨p, .here p, hp.symm⟩
  | @past n m spec next ex r legs q _ ih =>
    cases p with
    | report r => cases hp
    | exchange spec' next' =>
      rw [map] at hp
      obtain ⟨rfl, rfl⟩ := Plan.exchange.inj hp
      obtain ⟨q₀, hq₀, rfl⟩ := ih rfl
      exact ⟨q₀, .past hq₀, rfl⟩

end Along

end Exchange.Plan

namespace Switchboard

/-! ### What a caller has in the book -/

/-- The lines that a caller has in a book, each with its place, where the first line has the
place `i`. -/
def linesOf (k i : Nat) (book : List (Nat × Spec α)) : List (Nat × Spec α) :=
  (book.zipIdx i).filterMap fun line => if line.1.1 = k then some (line.2, line.1.2) else none

section Lines

variable {k i : Nat} {book : List (Nat × Spec α)}

/-- The lines of a caller in two parts of a book. -/
theorem linesOf_append (more : List (Nat × Spec α)) :
    linesOf k i (book ++ more) = linesOf k i book ++ linesOf k (i + book.length) more := by
  rw [linesOf, List.zipIdx_append, List.filterMap_append]
  rfl

/-- A line of its own comes first. -/
theorem linesOf_cons_self (spec : Spec α) :
    linesOf k i ((k, spec) :: book) = (i, spec) :: linesOf k (i + 1) book := by
  simp [linesOf]

/-- A caller without lines. -/
theorem linesOf_eq_nil (h : ∀ line ∈ book, line.1 ≠ k) : linesOf k i book = [] := by
  refine List.filterMap_eq_nil_iff.mpr fun line hline => if_neg ?_
  exact h line.1 (List.fst_mem_of_mem_zipIdx hline)

/-- Its lines are those of the book at their places. -/
theorem mem_linesOf {ex : Nat} {spec : Spec α} :
    (ex, spec) ∈ linesOf k 0 book ↔ book[ex]? = some (k, spec) := by
  simp only [linesOf, List.mem_filterMap, Option.ite_none_right_eq_some, Option.some.injEq,
    Prod.mk.injEq, Prod.exists, List.mk_mem_zipIdx_iff_getElem?]
  constructor
  · rintro ⟨j, spec', ex', hline, rfl, rfl, rfl⟩
    exact hline
  · intro hline
    exact ⟨k, spec, ex, hline, rfl, rfl, rfl⟩

end Lines

/-- The exchange of the leg has ended so, and if it was answered, then as its matcher says. -/
structure HasRun (s : Switchboard α ρ) (l : Leg α) : Prop where
  ended : s.resolution? l.id = some l.resolution
  read : ∀ m, l.resolution = .matched m →
    l.spec.matcher.accepts m.raw ∧ m.value = l.spec.matcher.answer m.raw

/-- A leg that has been run stays so. -/
theorem HasRun.mono {s s' : Switchboard α ρ} {l : Leg α} (h : s.HasRun l)
    (hmono : ∀ o, s.correlator.outcome? l.id = some o → s'.correlator.outcome? l.id = some o) :
    s'.HasRun l where
  ended := by
    obtain ⟨o, ho, hr⟩ := resolution?_eq_some_iff.mp h.ended
    exact resolution?_eq_some_iff.mpr ⟨o, hmono o ho, hr⟩
  read := h.read

/-- The caller `k` has run some exchanges of its plan, and is at the next one or has answered;
those are the exchanges that the book has for it. -/
def Trod (told : ρ → Prop) (s : Switchboard α ρ) (book : List (Nat × Spec α)) (k : Nat)
    {n : Nat} (plan : Plan α ρ n) : Prop :=
  ∃ legs : List (Leg α), (∀ l ∈ legs, s.HasRun l) ∧
    ((∃ c ∈ s.callers, c.id = k ∧ ∃ ex spec m next, c.goal = .exchange ex spec m next ∧
      plan.Along legs (.exchange spec next) ∧
        linesOf k 0 book = legs.map Leg.line ++ [(ex, spec)]) ∨
    (∀ c ∈ s.callers, c.id ≠ k) ∧ ∃ r m, told r ∧ plan.Along legs (.report r : Plan α ρ m) ∧
      linesOf k 0 book = legs.map Leg.line)

/-- What has been told may be less than what is. -/
theorem Trod.imp {told told' : ρ → Prop} {s : Switchboard α ρ} {book : List (Nat × Spec α)}
    {k n : Nat} {plan : Plan α ρ n} (h : Trod told s book k plan)
    (himp : ∀ r, told r → told' r) : Trod told' s book k plan := by
  obtain ⟨legs, hrun, hhere | ⟨hgone, r, m, htold, hrest⟩⟩ := h
  · exact ⟨legs, hrun, .inl hhere⟩
  · exact ⟨legs, hrun, .inr ⟨hgone, r, m, himp r htold, hrest⟩⟩

section Turn

variable {s : Switchboard α ρ} {book : List (Nat × Spec α)} {k n₀ : Nat} {plan₀ : Plan α ρ n₀}

/-- A caller that goes on with a plan goes on along it. -/
theorem trod_pursue {n : Nat} {plan : Plan α ρ n} (hi : s.Idle k)
    (hlength : book.length = s.correlator.next) (label : String) {legs : List (Leg α)}
    (hrun : ∀ l ∈ legs, s.HasRun l) (halong : plan₀.Along legs plan)
    (hlines : linesOf k 0 book = legs.map Leg.line) :
    Trod (s.Leaves (s.pursue k label plan) k label) (s.pursue k label plan)
      (book ++ s.enrolledBy k plan) k plan₀ := by
  induction plan generalizing s book legs with
  | report r =>
    have hleaves := s.leaves_finish k label r
    refine ⟨legs, fun l hl => (hrun l hl).mono fun o ho => ho, .inr ⟨hleaves.gone, r, _,
      hleaves, halong, ?_⟩⟩
    rw [enrolledBy, List.append_nil, hlines]
  | exchange spec next ih =>
    obtain ⟨hturn, hfits⟩ := begin_spec hi label spec (.exchange s.correlator.next spec _ next)
    have hreports := (s.stays_begin k spec).reports_eq
    have hnext := congrArg List.length (s.confined_begin k spec).2
    have hline : linesOf k 0 (book ++ [(k, spec)]) =
        legs.map Leg.line ++ [(s.correlator.next, spec)] := by
      rw [linesOf_append, hlines, linesOf_cons_self, Nat.zero_add, hlength]
      rfl
    rw [pursue_exchange, enrolledBy]
    generalize s.begin k spec = q at hturn hfits hreports hnext ⊢
    obtain ⟨s₁, stage⟩ := q
    have hrun₁ : ∀ l ∈ legs, s₁.HasRun l :=
      fun l hl => (hrun l hl).mono fun o => hturn.outcome?_mono
    cases hend : s₁.ending? s.correlator.next stage with
    | none =>
      have hmem := (mem_keep (hturn.callers hi.ids_nodup).1 (c := ⟨k, label, stage, false,
        .exchange s.correlator.next spec _ next⟩)).mpr (.inl rfl)
      exact ⟨legs, fun l hl => (hrun₁ l hl).mono fun _ ho => ho,
        .inl ⟨_, hmem, rfl, _, spec, _, next, rfl, halong, hline⟩⟩
    | some r =>
      obtain ⟨rfl, o, ho, rfl⟩ := ending?_eq_some_iff.mp hend
      have hlast : s₁.HasRun ⟨s.correlator.next, spec, o.resolution⟩ :=
        ⟨resolution?_eq_some_iff.mpr ⟨o, ho, rfl⟩, fun m => hfits.known.answered o m ho⟩
      have hlength₁ : (book ++ [(k, spec)]).length = s₁.correlator.next := by
        rw [List.length_append, hlength]
        simpa [Correlator.next] using hnext.symm
      have hgoes := ih o.resolution (hi.of_spares hturn (hfits.settled rfl).disarmed) hlength₁
        (List.forall_mem_append.mpr ⟨hrun₁, List.forall_mem_singleton.mpr hlast⟩)
        (halong.snoc s.correlator.next o.resolution) (by rw [hline, List.map_append]; rfl)
      rw [List.append_assoc] at hgoes
      exact hgoes.imp fun r' hleaves => hleaves.of_reports_eq hreports

/-- A caller that has its turn goes on along its plan, or stays at its exchange. -/
theorem trod_tend {c : Caller α ρ} (h : s.OrderlyBut (some c.id)) {ex : Nat} {spec : Spec α}
    (hp : s.Poised c ex spec) (hlength : book.length = s.correlator.next) {m : Nat}
    {next : Resolution α → Plan α ρ m} (hg : c.goal = .exchange ex spec m next)
    {legs : List (Leg α)} (hrun : ∀ l ∈ legs, s.HasRun l)
    (halong : plan₀.Along legs (.exchange spec next))
    (hlines : linesOf c.id 0 book = legs.map Leg.line ++ [(ex, spec)]) :
    Trod (s.Leaves (s.tend c) c.id c.label) (s.tend c)
      (book ++ s.enrolledWith c) c.id plan₀ := by
  obtain ⟨hturn, hfits, -⟩ := stride_spec h.sound hp
  have hreports := (s.stays_stride c ex spec).reports_eq
  have hdeadlines := congrArg List.length (s.confined_stride c ex spec).2
  rw [tend_exchange _ hg, s.enrolledWith_exchange hg]
  generalize s.stride c ex spec = q at hturn hfits hreports hdeadlines ⊢
  obtain ⟨s₁, stage⟩ := q
  have hrun₁ : ∀ l ∈ legs, s₁.HasRun l :=
    fun l hl => (hrun l hl).mono fun o => hturn.outcome?_mono
  cases hend : s₁.ending? ex stage with
  | none =>
    have hmem := (mem_keep (hturn.callers h.ids_nodup).1 (c := { c with stage := stage })).mpr
      (.inl rfl)
    refine ⟨legs, fun l hl => (hrun₁ l hl).mono fun _ ho => ho,
      .inl ⟨_, hmem, rfl, ex, spec, _, next, hg, halong, ?_⟩⟩
    rw [List.append_nil]
    exact hlines
  | some r =>
    obtain ⟨rfl, o, ho, rfl⟩ := ending?_eq_some_iff.mp hend
    have hlast : s₁.HasRun ⟨ex, spec, o.resolution⟩ :=
      ⟨resolution?_eq_some_iff.mpr ⟨o, ho, rfl⟩, fun m => hfits.known.answered o m ho⟩
    have hgoes := trod_pursue (h.idle_of_turn hturn (hfits.settled rfl).disarmed)
      (hlength.trans hdeadlines.symm) c.label
      (List.forall_mem_append.mpr ⟨hrun₁, List.forall_mem_singleton.mpr hlast⟩)
      (halong.snoc ex o.resolution) (by rw [hlines, List.map_append]; rfl)
    exact hgoes.imp fun r' hleaves => hleaves.of_reports_eq hreports

end Turn

/-! ### Who registers -/

/-- What a caller registers in its turn is its own. -/
theorem eq_of_mem_enrolledWith {s : Switchboard α ρ} {c : Caller α ρ} {line : Nat × Spec α}
    (hline : line ∈ s.enrolledWith c) : line.1 = c.id := by
  rw [enrolledWith] at hline
  split at hline
  · exact absurd hline List.not_mem_nil
  · split at hline
    · exact eq_of_mem_enrolledBy hline
    · exact absurd hline List.not_mem_nil

/-- Whoever registers an exchange in an event has its turn in it, or comes in it. -/
theorem owner_of_enrolledIn {s : Switchboard α ρ} {e : Event α ρ} {line : Nat × Spec α}
    (hline : line ∈ s.enrolledIn e) :
    (line.1 ∈ s.turnIn e ∧ ∃ c ∈ s.callers, c.id = line.1) ∨
      line.1 = s.next ∧ e.newcomers = 1 := by
  cases e with
  | next =>
    rw [enrolledIn, enrolledNext] at hline
    split at hline
    · next j rest hr =>
      cases hf : s.caller? j with
      | none =>
        rw [hf] at hline
        exact absurd hline List.not_mem_nil
      | some c =>
        rw [hf] at hline
        obtain ⟨hc, hid⟩ := mem_of_caller?_eq_some hf
        rw [eq_of_mem_enrolledWith hline]
        refine .inl ⟨?_, c, hc, rfl⟩
        simp [turnIn, turnNext, hr, hid]
    · exact absurd hline List.not_mem_nil
  | act step =>
    cases step with
    | launch label n plan => exact .inr ⟨eq_of_mem_enrolledBy hline, rfl⟩
    | listen label m timeout tell =>
      obtain rfl := List.mem_singleton.mp hline
      exact .inr ⟨rfl, rfl⟩
    | _ => exact absurd hline List.not_mem_nil
  | _ => exact absurd hline List.not_mem_nil

/-- Exchanges are registered for those who have come. -/
theorem owner_lt {s : Switchboard α ρ} (ho : s.Orderly) {events : List (Event α ρ)}
    {line : Nat × Spec α} (hline : line ∈ s.enrolledOver events) :
    line.1 < (s.after events).next := by
  induction events generalizing s with
  | nil => exact absurd hline List.not_mem_nil
  | cons e rest ih =>
    rcases List.mem_append.mp hline with hfirst | hlater
    · refine Nat.lt_of_lt_of_le ?_ (next_le_after (ho.after [e]) rest)
      change line.1 < (s.occur e).next
      rw [next_occur ho]
      rcases owner_of_enrolledIn hfirst with ⟨-, c, hc, hid⟩ | ⟨hid, hone⟩
      · exact Nat.lt_add_right _ (hid ▸ ho.ids_lt c hc)
      · rw [hid, hone]
        exact Nat.lt_succ_self _
    · exact ih (ho.after [e]) hlater

/-! ### Events -/

/-- An answer stays given. -/
theorem Answers.append_right {s : Switchboard α ρ} {xs : List (Event α ρ)} {k : Nat} {r : ρ}
    (h : s.Answers xs k r) (ys : List (Event α ρ)) : s.Answers (xs ++ ys) k r := by
  obtain ⟨before, e, later, rfl, hrest⟩ := h
  exact ⟨before, e, later ++ ys, by rw [List.append_assoc, List.cons_append], hrest⟩

section Run

variable {s : Switchboard α ρ} (ho : s.Orderly) {q : Habit α ρ} {book : List (Nat × Spec α)}
  (hb : Booked q book s)
include ho hb

/-- An event takes a caller on along its plan, or leaves it where it is. -/
theorem trod_occur {e : Event α ρ} {k n : Nat} {plan : Plan α ρ n} (hlt : k < s.next)
    {told : ρ → Prop} (h : Trod told s book k plan) :
    Trod (fun r => told r ∨ s.Answers [e] k r) (s.occur e) (book ++ s.enrolledIn e) k plan := by
  have hev := (s.keeps_occur e ho).2
  obtain ⟨legs, hrun, ⟨c, hc, rfl, ex, spec, m, next, hg, halong, hlines⟩ |
    ⟨hgone, r, m, htold, halong, hlines⟩⟩ := h
  · by_cases hturn : c.id ∈ s.turnIn e
    · obtain ⟨rest, hr, hoccur⟩ := occur_of_mem_turnIn ho hc hturn
      have hlinesIn :
          s.enrolledIn e = ({ s with ready := rest } : Switchboard α ρ).enrolledWith c := by
        cases e with
        | next =>
          have hf : s.caller? c.id = some c := caller?_of_mem ho.ids_nodup hc
          rw [enrolledIn, enrolledNext, hr]
          dsimp only
          rw [hf]
        | _ => exact absurd hturn List.not_mem_nil
      have hgoes := trod_tend (s := { s with ready := rest }) (orderlyBut_pop ho hr)
        (poised_of_ready ho hr hc (by rw [hg, Goal.errand?])) hb.length_eq hg
        (fun l hl => (hrun l hl).mono fun _ ho => ho) halong hlines
      rw [← hoccur, ← hlinesIn] at hgoes
      exact hgoes.imp fun r hleaves =>
        .inr ⟨[], e, [], rfl, .inl ⟨c, hc, rfl⟩, c.label, hleaves.of_reports_eq rfl⟩
    · -- others may register exchanges, it does not
      have hnone : linesOf c.id (0 + book.length) (s.enrolledIn e) = [] := by
        refine linesOf_eq_nil fun line hline heq => ?_
        rcases owner_of_enrolledIn hline with ⟨hmem, -⟩ | ⟨hid, -⟩
        · exact hturn (heq ▸ hmem)
        · exact Nat.ne_of_lt (ho.ids_lt c hc) (heq.symm.trans hid)
      obtain ⟨d, hd, hcd⟩ := hev.forth c hc ex (by rw [hg, Goal.exchange?]) hturn
      refine ⟨legs, fun l hl => (hrun l hl).mono fun o => hev.outcome?_mono,
        .inl ⟨d, hd, hcd.id_eq.symm, ex, spec, m, next, hcd.goal_eq ▸ hg, halong, ?_⟩⟩
      rw [linesOf_append, hnone, List.append_nil, hlines]
  · have hnone : linesOf k (0 + book.length) (s.enrolledIn e) = [] := by
      refine linesOf_eq_nil fun line hline heq => ?_
      rcases owner_of_enrolledIn hline with ⟨-, c, hc, hid⟩ | ⟨hid, -⟩
      · exact hgone c hc (hid.trans heq)
      · exact Nat.ne_of_lt hlt (heq.symm.trans hid)
    refine ⟨legs, fun l hl => (hrun l hl).mono fun o => hev.outcome?_mono,
      .inr ⟨gone_after ho hlt hgone [e], r, m, .inl htold, halong, ?_⟩⟩
    rw [linesOf_append, hnone, List.append_nil, hlines]

/-- Several events take a caller on along its plan. -/
theorem trod_after {events : List (Event α ρ)} (he : s.Heedful q events) {k n : Nat}
    {plan : Plan α ρ n} (hlt : k < s.next) {told : ρ → Prop} (h : Trod told s book k plan) :
    Trod (fun r => told r ∨ s.Answers events k r) (s.after events)
      (book ++ s.enrolledOver events) k
      plan := by
  induction events generalizing s book told with
  | nil =>
    rw [enrolledOver, List.append_nil]
    exact h.imp fun r => .inl
  | cons e rest ih =>
    have hrest := ih (ho.after [e]) (hb.occur ho he.1) he.2
      (Nat.lt_of_lt_of_le hlt (next_le_after ho [e])) (trod_occur ho hb hlt h)
    rw [List.append_assoc] at hrest
    refine hrest.imp fun r => ?_
    rintro ((htold | hfirst) | hlater)
    · exact .inl htold
    · exact .inr (hfirst.append_right rest)
    · exact .inr (hlater.append_left [e])

/-- Whoever is launched has taken its first steps. -/
theorem trod_launch (label : String) {n : Nat} (plan : Plan α ρ n)
    (hnone : linesOf s.next 0 book = []) :
    Trod (s.Answers [.act (.launch label n plan)] s.next)
      (s.occur (.act (.launch label n plan)))
      (book ++ s.enrolledIn (.act (.launch label n plan))) s.next plan := by
  have hnobody : ∀ l ∈ ([] : List (Leg α)), s.enlist.HasRun l :=
    fun _ hl => absurd hl List.not_mem_nil
  have hgoes := trod_pursue (idle_enlist ho) hb.length_eq label hnobody (.here plan) hnone
  exact hgoes.imp fun r hleaves => ⟨[], _, [], rfl, .inr ⟨rfl, label, n, plan, rfl⟩, label,
    hleaves.of_reports_eq rfl⟩

end Run

/-- At any time after its launch a caller has run some exchanges of its plan, one after the
other, and is at the next one or has answered; the exchanges that were registered for it are
those. -/
theorem trod_of_launched {s : Switchboard α ρ} (ho : s.Orderly) {q : Habit α ρ}
    (hb : Booked q [] s) {before later : List (Event α ρ)} {label : String} {n : Nat}
    {plan : Plan α ρ n} (he : s.Heedful q (before ++ .act (.launch label n plan) :: later)) :
    Trod (s.Answers (before ++ .act (.launch label n plan) :: later) (s.after before).next)
      (s.after (before ++ .act (.launch label n plan) :: later))
      (s.enrolledOver (before ++ .act (.launch label n plan) :: later)) (s.after before).next
        plan := by
  obtain ⟨hebefore, hefirst, helater⟩ := heedful_append.mp he
  have hu := ho.after before
  have hbu := hb.after ho hebefore
  rw [List.nil_append] at hbu
  -- nobody has registered anything for a caller that has not come yet
  have hnone : linesOf (s.after before).next 0 (s.enrolledOver before) = [] :=
    linesOf_eq_nil fun line hline heq => Nat.ne_of_lt (owner_lt ho hline) heq
  have hfirst := trod_launch hu hbu label plan hnone
  have hlt :
      (s.after before).next < ((s.after before).occur (.act (.launch label n plan))).next :=
    Launches.lt hu ⟨rfl, label, n, plan, rfl⟩
  have hlast := trod_after (hu.after [_]) (hbu.occur hu hefirst) helater hlt hfirst
  have hledger :
      s.enrolledOver before ++ (s.after before).enrolledIn (.act (.launch label n plan)) ++
      ((s.after before).occur (.act (.launch label n plan))).enrolledOver later =
        s.enrolledOver (before ++ .act (.launch label n plan) :: later) := by
    rw [enrolledOver_append, List.append_assoc]
    rfl
  have hstate : ((s.after before).after [.act (.launch label n plan)]).after later =
      s.after (before ++ .act (.launch label n plan) :: later) := by
    rw [after_append s, after_cons]
    rfl
  rw [← hledger, ← hstate]
  refine Trod.imp hlast fun r => ?_
  rintro (hfirst | hlater)
  · exact (hfirst.append_right later).append_left before
  · exact (hlater.append_left [.act (.launch label n plan)]).append_left before

end Switchboard

end VenueLink

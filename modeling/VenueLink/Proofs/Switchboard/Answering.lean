import VenueLink.Proofs.Switchboard.Book
import VenueLink.Proofs.Switchboard.Progress
import VenueLink.Proofs.Switchboard.Punctual

/-!
# What callers answer

Every caller answers at most once, and then it is gone. The last exchange of a plan decides on
the answer: whoever has come to it stays with it until it has ended, and answers what it came
to.

## Main results

* `Answers.unique`: nobody answers twice.
* `answers_of_decided`: the caller of a last exchange that has ended is there, or has answered.
* `last_goal`: whoever has come to its last exchange does not come to another one.
* `answers_of_enrolled`: whoever has registered its last exchange is there, or has answered what
  such an exchange came to.
-/

namespace VenueLink.Switchboard

open Exchange Correlator

variable {α ρ : Type}

/-- In an event the caller `k` is launched. -/
def Launches (s : Switchboard α ρ) (e : Event α ρ) (k : Nat) : Prop :=
  s.next = k ∧ ∃ label n plan, e = .act (.launch label n plan)

/-- In an event of a run the caller `k`, which was there or is launched in it, reports and goes.
-/
def Answers (s : Switchboard α ρ) (events : List (Event α ρ)) (k : Nat) (r : ρ) : Prop :=
  ∃ before e later, events = before ++ e :: later ∧
    ((∃ c ∈ (s.after before).callers, c.id = k) ∨ (s.after before).Launches e k) ∧
    ∃ label, (s.after before).Leaves ((s.after before).occur e) k label r

/-- Whoever is launched has a number that has been given out. -/
theorem Launches.lt {s : Switchboard α ρ} (ho : s.Orderly) {e : Event α ρ} {k : Nat}
    (h : s.Launches e k) : k < (s.occur e).next := by
  obtain ⟨rfl, label, n, plan, rfl⟩ := h
  rw [next_occur ho]
  exact Nat.lt_succ_self _

/-- What has been answered later has been answered in the whole run. -/
theorem Answers.append_left {s : Switchboard α ρ} (xs : List (Event α ρ))
    {ys : List (Event α ρ)} {k : Nat} {r : ρ} (h : (s.after xs).Answers ys k r) :
    s.Answers (xs ++ ys) k r := by
  obtain ⟨before, e, later, rfl, hrest⟩ := h
  exact ⟨xs ++ before, e, later, (List.append_assoc _ _ _).symm, by rwa [after_append]⟩

section Orderly

variable {s : Switchboard α ρ} (ho : s.Orderly)
include ho

/-- Once a caller has answered it is gone for good. -/
theorem gone_of_leaves {before : List (Event α ρ)} {e : Event α ρ} {k : Nat}
    (hhere : (∃ c ∈ (s.after before).callers, c.id = k) ∨ (s.after before).Launches e k)
    {label : String} {r : ρ}
    (hleaves : (s.after before).Leaves ((s.after before).occur e) k label r)
    (more : List (Event α ρ)) :
    k < (s.after (before ++ e :: more)).next ∧
      ∀ c ∈ (s.after (before ++ e :: more)).callers, c.id ≠ k := by
  have hu := ho.after before
  have hu' : ((s.after before).occur e).Orderly := hu.after [e]
  have hlt : k < ((s.after before).occur e).next := by
    rcases hhere with ⟨c, hc, rfl⟩ | hlaunch
    · exact Nat.lt_of_lt_of_le (hu.ids_lt c hc) (next_le_after hu [e])
    · exact hlaunch.lt hu
  rw [after_append, after_cons]
  exact ⟨Nat.lt_of_lt_of_le hlt (next_le_after hu' more), gone_after hu' hlt hleaves.gone more⟩

/-- Nobody answers twice. -/
theorem Answers.unique {events : List (Event α ρ)} {k : Nat} {r r' : ρ}
    (h : s.Answers events k r) (h' : s.Answers events k r') : r = r' := by
  -- of two answers the one that comes first makes the other impossible, unless they are the
  -- same
  have hfirst : ∀ {before before' : List (Event α ρ)} {e e' : Event α ρ}
      {later later' : List (Event α ρ)} {r r' : ρ} {label label' : String},
      before ++ e :: later = before' ++ e' :: later' → before <+: before' →
      ((∃ c ∈ (s.after before).callers, c.id = k) ∨ (s.after before).Launches e k) →
      (s.after before).Leaves ((s.after before).occur e) k label r →
      ((∃ c ∈ (s.after before').callers, c.id = k) ∨ (s.after before').Launches e' k) →
      (s.after before').Leaves ((s.after before').occur e') k label' r' → r = r' := by
    rintro before _ e e' later later' r r' label label' heq ⟨more, rfl⟩ hhere hleaves hhere'
      hleaves'
    rw [List.append_assoc, List.append_right_inj] at heq
    cases more with
    | nil =>
      obtain ⟨rfl, -⟩ := List.cons.inj heq
      rw [List.append_nil] at hleaves'
      obtain ⟨time, hreports⟩ := hleaves.reports
      obtain ⟨time', hreports'⟩ := hleaves'.reports
      rw [hreports, List.append_right_inj] at hreports'
      simpa using congrArg (List.map Report.report) hreports'
    | cons x more =>
      obtain ⟨rfl, -⟩ := List.cons.inj heq
      obtain ⟨hlt, hgone⟩ := gone_of_leaves ho hhere hleaves more
      rcases hhere' with ⟨c, hc, hid⟩ | hlaunch
      · exact absurd hid (hgone c hc)
      · exact absurd hlaunch.1 (Nat.ne_of_gt hlt)
  obtain ⟨before, e, later, heq, hhere, label, hleaves⟩ := h
  obtain ⟨before', e', later', heq', hhere', label', hleaves'⟩ := h'
  have hpre : before <+: events := ⟨_, heq.symm⟩
  have hpre' : before' <+: events := ⟨_, heq'.symm⟩
  rcases List.prefix_or_prefix_of_prefix hpre hpre' with hle | hle
  · exact hfirst (heq.symm.trans heq') hle hhere hleaves hhere' hleaves'
  · exact (hfirst (heq'.symm.trans heq) hle hhere' hleaves' hhere hleaves).symm

/-- What a launched caller has told it has answered. -/
theorem answers_of_told {before later : List (Event α ρ)} {label : String} {n : Nat}
    {plan : Plan α ρ n} {r : ρ}
    (h : (s.after before).Told (.act (.launch label n plan) :: later) (s.after before).next
      label r) :
    s.Answers (before ++ .act (.launch label n plan) :: later) (s.after before).next r := by
  obtain ⟨xs, e, ys, heq, hhere, hleaves⟩ := h
  have hu := ho.after before
  refine ⟨before ++ xs, e, ys, by rw [heq, List.append_assoc], ?_, label, ?_⟩
  · rw [after_append]
    refine hhere.symm.imp_right fun hnew => ?_
    cases xs with
    | nil =>
      obtain ⟨rfl, -⟩ := List.cons.inj heq
      exact ⟨rfl, label, n, plan, rfl⟩
    | cons x xs =>
      obtain ⟨rfl, -⟩ := List.cons.inj heq
      have hlt : (s.after before).next < ((s.after before).after
          (.act (.launch label n plan) :: xs)).next :=
        Nat.lt_of_lt_of_le (Launches.lt hu ⟨rfl, label, n, plan, rfl⟩)
          (next_le_after (hu.after [.act (.launch label n plan)]) xs)
      exact absurd hnew (Nat.ne_of_lt hlt)
  · rw [after_append]
    exact hleaves

/-- What answers an exchange whose caller is there is read as its matcher says. -/
theorem read_of_decided {e : Event α ρ} {c : Caller α ρ} (hc : c ∈ s.callers) {ex : Nat}
    {spec : Spec α} {n : Nat} {next : Resolution α → Plan α ρ n}
    (hg : c.goal = .exchange ex spec n next) {o : Outcome α}
    (hout : (s.occur e).correlator.outcome? ex = some o) {m : Matched α}
    (hm : o.resolution = .matched m) :
    spec.matcher.accepts m.raw ∧ m.value = spec.matcher.answer m.raw := by
  rcases occur_caller ho e hc hg with ⟨d, hd, hcd, -⟩ | ⟨s₁, o', hi, hk, -, hout', heq⟩
  · have he : d.goal.errand? = some (ex, spec) := by rw [← hcd.goal_eq, hg, Goal.errand?]
    exact ((ho.after [e]).fits hd he).known.answered o m hout hm
  · have hmono := (spares_pursue hi c.label (next o'.resolution)).outcome?_mono hout'
    rw [← heq, hout] at hmono
    obtain rfl := Option.some.inj hmono
    exact hk.answered o m hout' hm

/-- An exchange has the same caller at all times. -/
theorem same_owner {events before before' : List (Event α ρ)} (hpre : before <+: events)
    (hpre' : before' <+: events) {c d : Caller α ρ} (hc : c ∈ (s.after before).callers)
    (hd : d ∈ (s.after before').callers) {ex : Nat} (hex : c.goal.exchange? = some ex)
    (hex' : d.goal.exchange? = some ex) (hp : ex ∈ (s.after before).correlator.pendingIds)
    (hp' : ex ∈ (s.after before').correlator.pendingIds) : c.id = d.id := by
  have hlater : ∀ {before before' : List (Event α ρ)} {c d : Caller α ρ}, before <+: before' →
      c ∈ (s.after before).callers → d ∈ (s.after before').callers →
        c.goal.exchange? = some ex →
      d.goal.exchange? = some ex → ex ∈ (s.after before).correlator.pendingIds →
        c.id = d.id := by
    rintro before _ c d ⟨more, rfl⟩ hc hd hex hex' hp
    have hu := ho.after before
    rw [after_append] at hd
    obtain ⟨b, hb, hbd⟩ := (hu.evolves more).back d hd ex hex' (hu.sound.lt_of_pending hp)
    exact (hu.apart c hc b hb ex hex (hbd.goal_eq ▸ hex')).trans hbd.id_eq
  rcases List.prefix_or_prefix_of_prefix hpre hpre' with hle | hle
  · exact hlater hle hc hd hex hex' hp
  · exact (hlater hle hd hc hex' hex hp').symm

section Last

variable {c : Caller α ρ} {ex : Nat} {spec : Spec α} {n : Nat} {f : Resolution α → ρ}

/-- The caller of a last exchange that has ended in an event is there at the end of the run, or
has answered what the exchange came to. -/
theorem answers_of_decided (hm : s.Minded) {before : List (Event α ρ)} {e : Event α ρ}
    (hc : c ∈ (s.after before).callers)
    (hg : c.goal = .exchange ex spec n fun r => .report (f r)) {o : Outcome α}
    (hout : ((s.after before).occur e).correlator.outcome? ex = some o)
    (later : List (Event α ρ)) :
    (∃ d ∈ (s.after (before ++ e :: later)).callers, d.id = c.id) ∨
      s.Answers (before ++ e :: later) c.id (f o.resolution) := by
  have hu := ho.after before
  rw [after_append, after_cons]
  rcases occur_caller hu e hc hg with ⟨d, hd, hcd, -⟩ | ⟨s₁, o', hi, -, hreports, hout', heq⟩
  · have hu' : ((s.after before).occur e).Orderly := hu.after [e]
    have hex : d.goal.exchange? = some ex := by rw [← hcd.goal_eq, hg, Goal.exchange?]
    have hcalled := ((hm.after ho before).occur hu e).called d hd ex o hex hout
    rcases fate_of_ended hu' hd (hcd.goal_eq ▸ hg) hout hcalled later with
      ⟨b, hb, hdb, -⟩ | ⟨xs, e', ys, rfl, hhere, hleaves⟩
    · exact .inl ⟨b, hb, (hcd.id_eq.trans hdb.id_eq).symm⟩
    · refine .inr ⟨before ++ e :: xs, e', ys, by simp, ?_, d.label, ?_⟩
      · rw [after_append, after_cons, hcd.id_eq]
        refine .inl (hhere.resolve_left fun hnew => ?_)
        have := Nat.lt_of_lt_of_le (hu'.ids_lt d hd) (next_le_after hu' xs)
        omega
      · rw [after_append, after_cons, hcd.id_eq]
        exact hleaves
  · have hmono :=
      (spares_pursue hi c.label (.report (n := n) (f o'.resolution))).outcome?_mono hout'
    rw [← heq, hout] at hmono
    obtain rfl := Option.some.inj hmono
    have hleaves := (s₁.leaves_finish c.id c.label (f o.resolution)).of_reports_eq hreports
    exact .inr ⟨before, e, later, rfl, .inl ⟨c, hc, rfl⟩, c.label, heq ▸ hleaves⟩

/-- Whoever has come to its last exchange does not come to another one. -/
theorem last_goal (hc : c ∈ s.callers)
    (hg : c.goal = .exchange ex spec n fun r => .report (f r)) {events : List (Event α ρ)}
    {d : Caller α ρ} (hd : d ∈ (s.after events).callers) (hid : d.id = c.id) :
    d.goal = c.goal := by
  rcases stays_or_returns ho hc hg events with
    ⟨b, hb, hcb⟩ | ⟨before, e, later, rfl, b, hb, hcb, s₁, o, -, heq⟩
  · rw [eq_of_id_eq (ho.after events).ids_nodup hd hb (hid.trans hcb.id_eq), hcb.goal_eq]
  · -- it has reported and is gone, so nobody has its id any more
    have hu := ho.after before
    have hgone : ∀ a ∈ ((s.after before).occur e).callers, a.id ≠ b.id := fun a ha => by
      rw [heq] at ha
      exact not_mem_finish ha
    have hlt := Nat.lt_of_lt_of_le (hu.ids_lt b hb) (next_le_after hu [e])
    rw [after_append, after_cons] at hd
    exact absurd (hid.trans hcb.id_eq) (gone_after (hu.after [e]) hlt hgone later d hd)

/-- Whoever has come to its last exchange is there at the end of a run, or has answered what
that came to. -/
theorem stays_or_answers (hc : c ∈ s.callers)
    (hg : c.goal = .exchange ex spec n fun r => .report (f r)) (events : List (Event α ρ)) :
    (∃ d ∈ (s.after events).callers, d.id = c.id) ∨ ∃ r, s.Answers events c.id (f r) := by
  induction events generalizing s c with
  | nil => exact .inl ⟨c, hc, rfl⟩
  | cons e rest ih =>
    rcases occur_caller ho e hc hg with ⟨d, hd, hcd, -⟩ | ⟨s₁, o, -, -, hreports, -, heq⟩
    · rw [hcd.id_eq]
      exact (ih (ho.after [e]) hd (hcd.goal_eq ▸ hg)).imp_right
        fun ⟨r, hr⟩ => ⟨r, hr.append_left [e]⟩
    · have hleaves := (s₁.leaves_finish c.id c.label (f o.resolution)).of_reports_eq hreports
      have hturn : s.Leaves (s.occur e) c.id c.label (f o.resolution) := heq ▸ hleaves
      exact .inr ⟨_, [], e, rest, rfl, .inl ⟨c, hc, rfl⟩, c.label, hturn⟩

end Last

end Orderly

/-! ### Last exchanges that are registered -/

/-- A caller is at its last exchange, and reports what `f` makes of its end. -/
def AtLast (s : Switchboard α ρ) (k : Nat) (f : Resolution α → ρ) : Prop :=
  ∃ c ∈ s.callers, c.id = k ∧ ∃ ex spec n, c.goal = .exchange ex spec n fun r => .report (f r)

/-- In a turn, a caller has come to its last exchange, or it has reported what `f` makes of its
end. -/
def ComesToLast (s s' : Switchboard α ρ) (k : Nat) (f : Resolution α → ρ) : Prop :=
  s'.AtLast k f ∨ ∃ label r, s.Leaves s' k label (f r)

/-- Nobody has reported before that. -/
theorem ComesToLast.of_reports_eq {s s₁ s' : Switchboard α ρ} {k : Nat} {f : Resolution α → ρ}
    (h : s₁.ComesToLast s' k f) (heq : s₁.reports = s.reports) : s.ComesToLast s' k f :=
  h.imp_right fun ⟨label, r, hleaves⟩ => ⟨label, r, hleaves.of_reports_eq heq⟩

section Enrolled

variable {s : Switchboard α ρ} {k : Nat} {spec : Spec α} {f : Resolution α → ρ}

/-- What a plan registers is its caller's. -/
theorem eq_of_mem_enrolledBy {j n : Nat} {plan : Plan α ρ n}
    (hmem : (k, spec) ∈ s.enrolledBy j plan) : k = j := by
  induction plan generalizing s with
  | report r => exact absurd hmem List.not_mem_nil
  | exchange spec' next ih =>
    rw [enrolledBy] at hmem
    rcases List.mem_cons.mp hmem with heq | hlater
    · exact (Prod.mk.inj heq).1
    · split at hlater
      · exact ih _ hlater
      · exact absurd hlater List.not_mem_nil

/-- By its plan a caller comes to its last exchange, if it registers that. -/
theorem comesToLast_pursue {p : Spec α → (n : Nat) → (Resolution α → Plan α ρ n) → Prop}
    (hlast : ∀ n (next : Resolution α → Plan α ρ n), p spec n next →
      next = fun r => .report (f r))
    {n : Nat} {plan : Plan α ρ n} (hplan : plan.Always p)
    (hnd : (s.callers.map Caller.id).Nodup) (label : String)
    (hmem : (k, spec) ∈ s.enrolledBy k plan) : s.ComesToLast (s.pursue k label plan) k f := by
  induction plan generalizing s with
  | report r => exact absurd hmem List.not_mem_nil
  | @exchange n spec' next ih =>
    obtain ⟨hp, hnext⟩ := hplan
    have hstays := s.stays_begin k spec'
    have hreports := hstays.reports_eq
    have hnd₁ : ((s.begin k spec').1.callers.map Caller.id).Nodup := hstays.callers_eq ▸ hnd
    rw [enrolledBy] at hmem
    rw [pursue_exchange]
    generalize s.begin k spec' = q at hmem hreports hnd₁ ⊢
    obtain ⟨s₁, stage⟩ := q
    dsimp only at hmem hreports hnd₁ ⊢
    rcases List.mem_cons.mp hmem with heq | hlater
    · obtain ⟨-, rfl⟩ := Prod.mk.inj heq
      obtain rfl := hlast n next hp
      cases s₁.ending? s.correlator.next stage with
      | none => exact .inl ⟨_, (mem_keep hnd₁).mpr (.inl rfl), rfl, _, spec, n, rfl⟩
      | some r => exact .inr ⟨label, r, (s₁.leaves_finish k label (f r)).of_reports_eq hreports⟩
    · cases hend : s₁.ending? s.correlator.next stage with
      | none =>
        rw [hend] at hlater
        exact absurd hlater List.not_mem_nil
      | some r =>
        rw [hend] at hlater
        exact (ih r (hnext r) hnd₁ hlater).of_reports_eq hreports

variable {q : Habit α ρ} {book : List (Nat × Spec α)}
  (hlast : ∀ n (next : Resolution α → Plan α ρ n), q k spec n next →
    next = fun r => .report (f r))
include hlast

/-- So it does by its turn. -/
theorem comesToLast_tend {c : Caller α ρ} (hc : InBook q book c.id c.goal)
    (hnd : (s.callers.map Caller.id).Nodup) (hmem : (k, spec) ∈ s.enrolledWith c) :
    k = c.id ∧ s.ComesToLast (s.tend c) k f := by
  cases hg : c.goal with
  | readiness tell =>
    have hnil : s.enrolledWith c = [] := by rw [enrolledWith, hg]
    exact absurd (hnil ▸ hmem) List.not_mem_nil
  | exchange ex spec' n next =>
    have hstays := s.stays_stride c ex spec'
    have hnd₁ : ((s.stride c ex spec').1.callers.map Caller.id).Nodup := hstays.callers_eq ▸ hnd
    rw [hg] at hc
    rw [s.enrolledWith_exchange hg] at hmem
    rw [tend_exchange s hg]
    cases hend : (s.stride c ex spec').1.ending? ex (s.stride c ex spec').2 with
    | none =>
      rw [hend] at hmem
      exact absurd hmem List.not_mem_nil
    | some r =>
      rw [hend] at hmem
      obtain rfl := eq_of_mem_enrolledBy hmem
      exact ⟨rfl, (comesToLast_pursue hlast (hc.2.2 r) hnd₁ c.label hmem).of_reports_eq
        hstays.reports_eq⟩

/-- A caller that registers its last exchange in an event has come to it after the event, or has
answered what it came to. -/
theorem atLast_of_enrolledIn (ho : s.Orderly) (h : Booked q book s) {e : Event α ρ}
    (he : e.Heeds q s.next) (hmem : (k, spec) ∈ s.enrolledIn e) :
    (s.occur e).AtLast k f ∨ ∃ r, s.Answers [e] k (f r) := by
  have hanswers : ((∃ c ∈ s.callers, c.id = k) ∨ s.Launches e k) →
      s.ComesToLast (s.occur e) k f →
      (s.occur e).AtLast k f ∨ ∃ r, s.Answers [e] k (f r) := fun hhere hcomes =>
    hcomes.imp_right fun ⟨label, r, hleaves⟩ => ⟨r, [], e, [], rfl, hhere, label, hleaves⟩
  cases e with
  | next =>
    rw [enrolledIn, enrolledNext] at hmem
    split at hmem
    · next j rest hr =>
      have hsame : ({ s with ready := rest } : Switchboard α ρ).caller? j = s.caller? j := rfl
      cases hf : s.caller? j with
      | none =>
        rw [hf] at hmem
        exact absurd hmem List.not_mem_nil
      | some c =>
        obtain ⟨hc, -⟩ := mem_of_caller?_eq_some hf
        have hturn : s.occur .next = ({ s with ready := rest } : Switchboard α ρ).tend c := by
          rw [occur_next_of_ready hr, perform, hsame, hf]
        rw [hf] at hmem
        obtain ⟨rfl, hcomes⟩ := comesToLast_tend (s := { s with ready := rest }) hlast
          (h.goals c hc) ho.ids_nodup hmem
        exact hanswers (.inl ⟨c, hc, rfl⟩) (hturn ▸ hcomes.of_reports_eq rfl)
    · exact absurd hmem List.not_mem_nil
  | act step =>
    cases step with
    | launch label n plan =>
      obtain rfl := eq_of_mem_enrolledBy hmem
      exact hanswers (.inr ⟨rfl, label, n, plan, rfl⟩)
        ((comesToLast_pursue (s := s.enlist) hlast he ho.ids_nodup label hmem).of_reports_eq
          rfl)
    | listen label m timeout tell =>
      obtain ⟨rfl, rfl⟩ := Prod.mk.inj (List.mem_singleton.mp hmem)
      have hf := hlast _ _ he
      refine .inl ⟨_, (mem_keep ho.ids_nodup).mpr (.inl rfl), rfl, s.correlator.next,
        listening m timeout, 0, ?_⟩
      rw [← hf]
      rfl
    | _ => exact absurd hmem List.not_mem_nil
  | _ => exact absurd hmem List.not_mem_nil

/-- Whoever has registered its last exchange is there at the end of the run, or has answered
what such an exchange came to. -/
theorem answers_of_enrolled (ho : s.Orderly) (h : Booked q book s) {events : List (Event α ρ)}
    (he : s.Heedful q events) (hmem : (k, spec) ∈ s.enrolledOver events) :
    (∃ c ∈ (s.after events).callers, c.id = k) ∨ ∃ r, s.Answers events k (f r) := by
  induction events generalizing s book with
  | nil => exact absurd hmem List.not_mem_nil
  | cons e rest ih =>
    rcases List.mem_append.mp hmem with hfirst | hlater
    · rcases atLast_of_enrolledIn hlast ho h he.1 hfirst with
        ⟨c, hc, rfl, ex, spec', n, hg⟩ | ⟨r, before, e', later, heq, hrest⟩
      · exact (stays_or_answers (ho.after [e]) hc hg rest).imp_right
          fun ⟨r, hr⟩ => ⟨r, hr.append_left [e]⟩
      · refine .inr ⟨r, before, e', later ++ rest, ?_, hrest⟩
        rw [← List.singleton_append, heq]
        exact List.append_assoc _ _ _
    · exact (ih (ho.after [e]) (h.occur ho he.1) he.2 hlater).imp_right
        fun ⟨r, hr⟩ => ⟨r, hr.append_left [e]⟩

end Enrolled

end VenueLink.Switchboard

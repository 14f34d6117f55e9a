import VenueLink.Proofs.Switchboard.Work

/-!
# Everything that is ready happens

`settle` lets a bounded number of things happen. Here the bound is shown to be enough: at the
end nothing is left to do. For each thing that happens takes some of the work away that there is
at the instant, and the bound is more than the work.

## Main results

* `work_lt_of_next?`: whatever happens next leaves less work.
* `quiet_settle`: nothing is left to do once everything has happened.
-/

namespace VenueLink

open Exchange

variable {α ρ : Type}

namespace Switchboard

variable {k r : Nat}

/-! ### Turns -/

/-- Between `s` and `s'` there come to be no more callers, and at the end there is at most the
work `n`. -/
structure Leaving (k r n : Nat) (s s' : Switchboard α ρ) : Prop where
  length_le : s'.callers.length ≤ s.callers.length
  responders_eq : s'.wire.responders = s.wire.responders
  work_le : s.Within k r → s'.work k r ≤ n

/-- The numbers of callers and replies stay bounded. -/
theorem Leaving.within {n : Nat} {s s' : Switchboard α ρ} (h : Leaving k r n s s')
    (hs : s.Within k r) : s'.Within k r where
  callers := Nat.le_trans h.length_le hs.callers
  replies := by
    rw [Wire.replyCount, h.responders_eq]
    exact hs.replies

/-- The callers apart from one. -/
def others (s : Switchboard α ρ) (id : Nat) : List (Caller α ρ) :=
  s.callers.filter (·.id ≠ id)

/-- A caller that is put in its place takes no other one. -/
theorem length_putCaller {c : Caller α ρ} {l : List (Caller α ρ)} (h : c.id ∈ l.map Caller.id) :
    (putCaller c l).length = l.length := by
  induction l with
  | nil => cases h
  | cons d rest ih =>
    rw [putCaller]
    split
    · rfl
    · next hne =>
      rw [List.length_cons, ih, List.length_cons]
      exact (List.mem_cons.mp h).resolve_left fun heq => hne heq.symm

/-- Nobody is left out who is not there. -/
theorem filter_eq_self_of_not_mem {id : Nat} {l : List (Caller α ρ)}
    (h : id ∉ l.map Caller.id) : l.filter (·.id ≠ id) = l :=
  List.filter_eq_self.mpr fun d hd => by
    simpa using fun heq : d.id = id => h (heq ▸ List.mem_map_of_mem hd)

/-- Putting a caller in its place costs the work of that caller and of the others. -/
theorem callersWork_putCaller (c : Caller α ρ) {l : List (Caller α ρ)}
    (hnd : (l.map Caller.id).Nodup) :
    callersWork k r (putCaller c l) =
      callersWork k r (l.filter (·.id ≠ c.id)) + c.work k r := by
  induction l with
  | nil => simp [putCaller, callersWork]
  | cons d rest ih =>
    obtain ⟨hhead, htail⟩ := List.nodup_cons.mp hnd
    rw [putCaller]
    split
    · next heq =>
      have hrest : rest.filter (·.id ≠ c.id) = rest := filter_eq_self_of_not_mem (heq ▸ hhead)
      rw [List.filter_cons_of_neg (by simp [heq]), hrest]
      simp only [callersWork, List.map_cons, List.sum_cons]
      omega
    · next hne =>
      have hih := ih htail
      rw [List.filter_cons_of_pos (by simpa using hne)]
      simp only [callersWork, List.map_cons, List.sum_cons] at hih ⊢
      omega

/-- The work of the callers is that of one and that of the others. -/
theorem callersWork_eq {s : Switchboard α ρ} (hnd : (s.callers.map Caller.id).Nodup)
    {c : Caller α ρ} (hc : c ∈ s.callers) :
    callersWork k r s.callers = callersWork k r (s.others c.id) + c.work k r := by
  have hsplit : ∀ {l : List (Caller α ρ)}, (l.map Caller.id).Nodup → c ∈ l →
      callersWork k r l = callersWork k r (l.filter (·.id ≠ c.id)) + c.work k r := by
    intro l hnd hc
    induction l with
    | nil => cases hc
    | cons d rest ih =>
      obtain ⟨hhead, htail⟩ := List.nodup_cons.mp hnd
      rcases List.mem_cons.mp hc with rfl | hrest
      · rw [List.filter_cons_of_neg (by simp), filter_eq_self_of_not_mem hhead]
        simp only [callersWork, List.map_cons, List.sum_cons]
        omega
      · have hne : d.id ≠ c.id := fun heq => hhead (heq ▸ List.mem_map_of_mem hrest)
        have hih := ih htail hrest
        rw [List.filter_cons_of_pos (by simpa using hne)]
        simp only [callersWork, List.map_cons, List.sum_cons] at hih ⊢
        omega
  exact hsplit hnd hc

/-- A caller that answers leaves the work of the others. -/
theorem leaving_finish {n : Nat} {s s₁ : Switchboard α ρ} (h : Stirs k r n s s₁) (id : Nat)
    (label : String) (x : ρ) :
    Leaving k r (s.bustle k r + n + callersWork k r (s.others id)) s
      (s₁.finish id label x) where
  length_le := h.callers_eq ▸ List.length_filter_le _ _
  responders_eq := h.responders_eq
  work_le hs := by
    have hbustle := h.bustle_le hs
    have hcallers : (s₁.finish id label x).callers = s.others id := by
      rw [finish, dismiss, others, ← h.callers_eq]
      refine List.filter_congr fun d _ => ?_
      by_cases hd : d.id = id <;> simp [hd]
    have hfinish : (s₁.finish id label x).bustle k r = s₁.bustle k r := rfl
    rw [work, hcallers, hfinish]
    omega

/-- A caller that is kept adds its own. -/
theorem leaving_keep {n : Nat} {s s₁ : Switchboard α ρ} (h : Stirs k r n s s₁)
    (hnd : (s.callers.map Caller.id).Nodup) (c : Caller α ρ)
    (hc : c.id ∈ s.callers.map Caller.id) :
    Leaving k r (s.bustle k r + n + callersWork k r (s.others c.id) + c.work k r) s
      (s₁.keep c) where
  length_le := by
    rw [keep, h.callers_eq]
    exact Nat.le_of_eq (length_putCaller hc)
  responders_eq := h.responders_eq
  work_le hs := by
    have hbustle := h.bustle_le hs
    have hkeep : (s₁.keep c).bustle k r = s₁.bustle k r := rfl
    have hcallers : callersWork k r (s₁.keep c).callers =
        callersWork k r (s.others c.id) + c.work k r := by
      rw [keep, h.callers_eq]
      exact callersWork_putCaller c hnd
    rw [work, hkeep, hcallers]
    omega

/-- The work may be estimated more coarsely. -/
theorem Leaving.mono {m n : Nat} {s s' : Switchboard α ρ} (h : Leaving k r m s s')
    (hle : m ≤ n) : Leaving k r n s s' where
  length_le := h.length_le
  responders_eq := h.responders_eq
  work_le hs := Nat.le_trans (h.work_le hs) hle

/-- Something that leaves the callers alone, and then a turn. -/
theorem Leaving.of_stirs {l m n : Nat} {s s₁ s' : Switchboard α ρ} (h₁ : Stirs k r l s s₁)
    (h₂ : Leaving k r m s₁ s') (hle : s.Within k r → m ≤ n) : Leaving k r n s s' where
  length_le := h₁.callers_eq ▸ h₂.length_le
  responders_eq := h₂.responders_eq.trans h₁.responders_eq
  work_le hs := Nat.le_trans (h₂.work_le (h₁.within hs)) (hle hs)

/-- The others stay as they are. -/
theorem others_eq {n : Nat} {s s' : Switchboard α ρ} (h : Stirs k r n s s') (id : Nat) :
    s'.others id = s.others id := by
  rw [others, h.callers_eq, others]

/-- A caller that starts on a plan may register as many exchanges as the plan has. -/
theorem leaving_pursue {s : Switchboard α ρ} (hnd : (s.callers.map Caller.id).Nodup) {id : Nat}
    (hid : id ∈ s.callers.map Caller.id) (label : String) {n : Nat} (plan : Plan α ρ n) :
    Leaving k r (s.bustle k r + callersWork k r (s.others id) + n * exchangeWork k r) s
      (s.pursue id label plan) := by
  induction plan generalizing s with
  | report x =>
    exact (leaving_finish (Stirs.refl s) id label x).mono (by omega)
  | @exchange n spec next ih =>
    obtain ⟨m, hstirs, hle⟩ := s.spends_begin (k := k) (r := r) id spec
    have hwork : (n + 1) * exchangeWork k r = n * exchangeWork k r + exchangeWork k r :=
      Nat.succ_mul _ _
    rw [pursue_exchange]
    generalize s.begin id spec = p at hstirs hle ⊢
    obtain ⟨s₁, stage⟩ := p
    cases hend : s₁.ending? s.correlator.next stage with
    | none =>
      refine (leaving_keep hstirs hnd
        ⟨id, label, stage, false, .exchange s.correlator.next spec n next⟩ hid).mono ?_
      simp only [Caller.work, Caller.remaining, Nat.add_sub_cancel]
      dsimp only at hle
      omega
    | some res =>
      refine (Leaving.of_stirs hstirs
        (ih res (hstirs.callers_eq ▸ hnd) (hstirs.callers_eq ▸ hid))
        fun hs => ?_)
      have := hstirs.bustle_le hs
      rw [others_eq hstirs]
      dsimp only at hle this ⊢
      omega

/-- The turn of a caller takes its work away, and leaves what it brings about. -/
theorem leaving_tend {s : Switchboard α ρ} (hnd : (s.callers.map Caller.id).Nodup)
    {c : Caller α ρ} (hc : c ∈ s.callers) : Leaving k r (s.work k r) s (s.tend c) := by
  have hid : c.id ∈ s.callers.map Caller.id := List.mem_map_of_mem hc
  have hsplit := callersWork_eq (k := k) (r := r) hnd hc
  cases hg : c.goal with
  | readiness tell =>
    have hwork : c.work k r = c.stage.work k r := by simp [Caller.work, Caller.remaining, hg]
    obtain ⟨m, hstirs, hle⟩ := s.spends_access (k := k) (r := r) c.stage
    rw [tend_readiness s hg]
    generalize s.access c.stage = p at hstirs hle ⊢
    obtain ⟨s₁, access⟩ := p
    cases access with
    | blocked stage =>
      refine (leaving_keep hstirs hnd { c with stage := stage } hid).mono ?_
      have hkept : ({ c with stage := stage } : Caller α ρ).work k r = stage.work k r := by
        simp [Caller.work, Caller.remaining, hg]
      simp only [Access.work] at hle
      dsimp only
      rw [hkept, work]
      omega
    | granted readiness =>
      exact (leaving_finish hstirs c.id c.label _).mono (by rw [work]; omega)
    | refused e =>
      exact (leaving_finish hstirs c.id c.label _).mono (by rw [work]; omega)
  | exchange ex spec n next =>
    have hwork : c.work k r = c.stage.work k r + n * exchangeWork k r := by
      simp [Caller.work, Caller.remaining, hg]
    obtain ⟨m, hstirs, hle⟩ := s.spends_stride (k := k) (r := r) c ex spec
    rw [tend_exchange s hg]
    generalize s.stride c ex spec = p at hstirs hle ⊢
    obtain ⟨s₁, stage⟩ := p
    dsimp only at hstirs hle ⊢
    cases hend : s₁.ending? ex stage with
    | none =>
      refine (leaving_keep hstirs hnd { c with stage := stage } hid).mono ?_
      have hkept : ({ c with stage := stage } : Caller α ρ).work k r =
          stage.work k r + n * exchangeWork k r := by
        simp [Caller.work, Caller.remaining, hg]
      dsimp only
      rw [hkept, work]
      omega
    | some res =>
      refine Leaving.of_stirs hstirs (leaving_pursue (hstirs.callers_eq ▸ hnd)
        (hstirs.callers_eq ▸ hid) c.label (next res)) fun hs => ?_
      have := hstirs.bustle_le hs
      rw [others_eq hstirs, work]
      omega

/-! ### Signals -/

/-- A message wakes each caller at most once. -/
theorem stirs_dispatch (s : Switchboard α ρ) (m : Json) : Stirs k r k s (s.dispatch m) := by
  have hended : Stirs k r 0 s { s with
      correlator := (s.correlator.dispatch s.now m).1
      wire := { s.wire with
        pruned := s.wire.pruned ++ (s.correlator.dispatch s.now m).2.pruned } } :=
    stirs_of_eq rfl rfl rfl rfl rfl
  exact (hended.trans (rouses_foldl_wakeWaiting _ _).stirs).mono (Nat.zero_add k).le

/-- So does the failure of all exchanges. -/
theorem stirs_failAll (s : Switchboard α ρ) : Stirs k r k s s.failAll :=
  ((s.stirs_correlator _).trans (rouses_foldl_wakeWaiting _ _).stirs).mono (Nat.zero_add k).le

/-- Handling a signal brings about no more work than its price. -/
theorem stirs_handle (s : Switchboard α ρ) (x : Signal) :
    Stirs k r (x.work k r) s (s.handle x) := by
  have hlink : ∀ (s : Switchboard α ρ) (l : Link), Stirs k r 0 s { s with link := l } :=
    fun _ _ => stirs_of_eq rfl rfl rfl rfl rfl
  simp only [handle]
  split
  · exact (Stirs.refl s).mono (Nat.zero_le _)
  · cases x with
    | opened g =>
      refine ((s.stirs_greet.trans (hlink _ _)).trans (rouses_wakeWhere _ _).stirs).mono ?_
      simp only [Signal.work]
      omega
    | message g payload => exact s.stirs_dispatch payload
    | closed g reason =>
      refine (((hlink _ _).trans (rouses_wakeWhere _ _).stirs).trans (stirs_failAll _)).mono ?_
      simp only [Signal.work]
      omega

/-- Signals that are handled are replaced by what they bring about. -/
theorem stirs_sift (s : Switchboard α ρ) : Stirs k r 0 s s.sift := by
  have hfold : ∀ (l : List Signal) (s : Switchboard α ρ),
      Stirs k r (l.map (Signal.work k r)).sum s (l.foldl handle s) := by
    intro l
    induction l with
    | nil => exact fun s => .refl s
    | cons x rest ih => exact fun s => (s.stirs_handle x).trans (ih _)
  have hall := hfold s.inbox { s with inbox := [] }
  refine ⟨hall.callers_eq, hall.responders_eq, fun hs => ?_⟩
  have hle := hall.bustle_le ⟨hs.callers, hs.replies⟩
  have hempty : ({ s with inbox := [] } : Switchboard α ρ).bustle k r +
      (s.inbox.map (Signal.work k r)).sum = s.bustle k r := by
    simp only [bustle, List.map_nil, List.sum_nil]
    omega
  rw [sift]
  omega

/-- A call to handle signals that is dropped costs nothing. -/
theorem stirs_hush (s : Switchboard α ρ) :
    Stirs k r 0 s { s with ready := s.ready.filter (· ≠ .signals) } := by
  refine ⟨rfl, rfl, fun _ => ?_⟩
  have htasks : ((s.ready.filter (· ≠ .signals)).map (Task.work k r)).sum ≤
      (s.ready.map (Task.work k r)).sum :=
    (List.filter_sublist.map _).sum_le_sum fun _ _ => Nat.zero_le _
  rw [bustle, bustle]
  dsimp only
  omega

/-- Signals pay for what they stir themselves. -/
theorem stirs_drain (s : Switchboard α ρ) : Stirs k r 0 s s.drain :=
  ((s.stirs_sift.trans (stirs_sift _)).trans (stirs_hush _))

/-! ### What happens next -/

/-- Taking up a task takes its price away. -/
theorem bustle_pop {s : Switchboard α ρ} {t : Task} {rest : List Task}
    (hr : s.ready = t :: rest) :
    ({ s with ready := rest } : Switchboard α ρ).bustle k r + t.work k r = s.bustle k r := by
  rw [bustle, bustle, hr]
  simp only [List.map_cons, List.sum_cons]
  omega

/-- A watch that yields costs less than before. -/
theorem stirs_getOn (s : Switchboard α ρ) (id : Nat) : Stirs k r (k + 2) s (s.getOn id) := by
  rw [getOn]
  cases s.correlator.pending? id with
  | none => exact (Stirs.refl s).mono (Nat.zero_le _)
  | some e =>
    dsimp only
    split
    · exact (s.stirs_arm _ _).mono (Nat.zero_le _)
    · refine ⟨rfl, rfl, fun _ => ?_⟩
      simp only [bustle, List.length_append, List.length_singleton, Nat.add_mul]
      omega

/-- Watches that go on cost less than they did before. -/
theorem bustle_resume {s : Switchboard α ρ} (hr : s.ready = []) :
    s.resume.bustle k r + s.yielded.length = s.bustle k r := by
  have htasks : (s.resume.ready.map (Task.work k r)).sum = s.yielded.length * (k + 1) := by
    have hprice : Task.work k r ∘ Task.expire = fun _ => k + 1 := rfl
    rw [resume, List.map_map, hprice]
    simp
  have hinbox : s.resume.inbox = s.inbox := rfl
  have hyielded : s.resume.yielded = [] := rfl
  rw [bustle, bustle, htasks, hr, hinbox, hyielded]
  simp only [List.map_nil, List.sum_nil, List.length_nil]
  ring

/-- Something that leaves the callers alone and brings about less work than the task that it
follows from. -/
theorem Leaving.of_task {m : Nat} {s s' : Switchboard α ρ} (s₀ : Switchboard α ρ)
    (hcallers : s₀.callers = s.callers) (hresponders : s₀.wire.responders = s.wire.responders)
    (h : Stirs k r m s₀ s') (hle : s₀.bustle k r + m < s.bustle k r) :
    Leaving k r (s.work k r - 1) s s' where
  length_le := Nat.le_of_eq (congrArg List.length (h.callers_eq.trans hcallers))
  responders_eq := h.responders_eq.trans hresponders
  work_le hs := by
    have hreplies : s₀.wire.replyCount ≤ r := by
      rw [Wire.replyCount, hresponders]
      exact hs.replies
    have hbustle := h.bustle_le ⟨hcallers ▸ hs.callers, hreplies⟩
    rw [work, work, h.callers_eq, hcallers]
    omega

/-- A task that is taken up leaves less work. -/
theorem leaving_perform {s : Switchboard α ρ} (h : s.Orderly) {t : Task} {rest : List Task}
    (hr : s.ready = t :: rest) :
    Leaving k r (s.work k r - 1) s
      (({ s with ready := rest } : Switchboard α ρ).perform t) := by
  cases t with
  | signals =>
    have hpop := bustle_pop (k := k) (r := r) hr
    exact .of_task { s with ready := rest } rfl rfl (stirs_drain _) (by
      simp only [Task.work] at hpop
      omega)
  | announce g =>
    have hpop := bustle_pop (k := k) (r := r) hr
    refine .of_task { s with ready := rest } rfl rfl (stirs_hear _ [.opened g]) ?_
    simp only [Task.work] at hpop
    simp only [List.map_cons, List.map_nil, List.sum_cons, List.sum_nil, Signal.work]
    omega
  | watch id =>
    have hpop := bustle_pop (k := k) (r := r) hr
    refine .of_task { s with ready := rest } rfl rfl (stirs_getOn _ id) ?_
    simp only [Task.work] at hpop
    omega
  | expire id =>
    have hpop := bustle_pop (k := k) (r := r) hr
    refine .of_task { s with ready := rest } rfl rfl
      ((stirs_correlator _ (s.correlator.expire s.now id)).trans (rouses_wakeWhere _ _).stirs)
        ?_
    simp only [Task.work] at hpop
    omega
  | caller id =>
    have hpop := bustle_pop (k := k) (r := r) hr
    simp only [Task.work] at hpop
    rw [perform]
    cases hf : ({ s with ready := rest } : Switchboard α ρ).caller? id with
    | none => exact .of_task { s with ready := rest } rfl rfl (.refl _) (by omega)
    | some c =>
      obtain ⟨hc, -⟩ := mem_of_caller?_eq_some hf
      have hturn :=
        leaving_tend (k := k) (r := r) (s := { s with ready := rest }) h.ids_nodup hc
      refine ⟨hturn.length_le, hturn.responders_eq, fun hs => ?_⟩
      refine Nat.le_trans (hturn.work_le ⟨hs.callers, hs.replies⟩) ?_
      rw [work, work]
      dsimp only
      omega

/-- Whatever happens next leaves less work. -/
theorem work_lt_of_next? {s s' : Switchboard α ρ} (h : s.Orderly) (hs : s.Within k r)
    (hn : s.next? = some s') : s'.Within k r ∧ s'.work k r < s.work k r := by
  rw [next?] at hn
  cases hr : s.ready with
  | cons t rest =>
    rw [hr] at hn
    obtain rfl := Option.some.inj hn
    have hturn := leaving_perform (k := k) (r := r) h hr
    have hpos : 0 < s.work k r := by
      have hprice : 0 < t.work k r := by cases t <;> simp [Task.work]
      simp only [work, bustle, hr, List.map_cons, List.sum_cons]
      omega
    have := hturn.work_le hs
    exact ⟨hturn.within hs, by omega⟩
  | nil =>
    rw [hr] at hn
    have hresume := bustle_resume (k := k) (r := r) hr
    dsimp only at hn
    split at hn
    · cases hn
    · next hyielded =>
      obtain rfl := Option.some.inj hn
      have hpos : 0 < s.yielded.length := List.length_pos_of_ne_nil hyielded
      have hcallers : s.resume.callers = s.callers := rfl
      refine ⟨⟨hs.callers, hs.replies⟩, ?_⟩
      rw [work, work, hcallers]
      omega

/-- Nothing is done next exactly where nothing is left to do. -/
theorem next?_eq_none_iff {s : Switchboard α ρ} : s.next? = none ↔ s.Quiet := by
  rw [next?, Quiet]
  cases s.ready with
  | cons t rest => simp
  | nil => simp

/-- So many things as there is work are enough. -/
theorem quiet_happen {n : Nat} {s : Switchboard α ρ} (h : s.Orderly) (hs : s.Within k r)
    (hle : s.work k r ≤ n) : (s.happen n).Quiet := by
  induction n generalizing s with
  | zero =>
    refine next?_eq_none_iff.mp (Option.eq_none_iff_forall_ne_some.mpr fun s' hn => ?_)
    have := (work_lt_of_next? h hs hn).2
    omega
  | succ n ih =>
    rw [happen]
    cases hn : s.next? with
    | none => exact next?_eq_none_iff.mp hn
    | some s' =>
      obtain ⟨hs', hlt⟩ := work_lt_of_next? h hs hn
      obtain rfl := occur_next_of_next? hn
      exact ih (h.after [.next]) hs' (by omega)

/-! ### The bound -/

/-- No price is higher than this. -/
def unitWork (k r : Nat) : Nat :=
  (3 * r + 4) * (k + 4)

/-- The highest price in figures. -/
theorem unitWork_eq (k r : Nat) : unitWork k r = 3 * (r * k) + 12 * r + 4 * k + 16 := by
  rw [unitWork]
  ring

/-- A sum of prices that are bounded. -/
theorem sum_map_le {β : Type} {f : β → Nat} {n : Nat} {l : List β} (h : ∀ x ∈ l, f x ≤ n) :
    (l.map f).sum ≤ l.length * n := by
  have hsum := List.sum_le_card_nsmul (l.map f) n fun m hm => by
    obtain ⟨x, hx, rfl⟩ := List.mem_map.mp hm
    exact h x hx
  rwa [List.length_map, Nat.nsmul_eq_mul] at hsum

/-- What a caller may still do costs no more than its exchanges. -/
theorem work_caller_le (c : Caller α ρ) : c.work k r ≤ c.remaining * unitWork k r := by
  have hunit := unitWork_eq k r
  have hstage : c.stage.work k r ≤ unitWork k r := by
    cases c.stage <;> simp only [Stage.work, frameWork] <;> omega
  have hexchange : exchangeWork k r ≤ unitWork k r := by
    simp only [exchangeWork, frameWork]
    omega
  obtain ⟨n, hn⟩ : ∃ n, c.remaining = n + 1 := by
    cases hg : c.goal with
    | readiness tell => exact ⟨0, by rw [Caller.remaining, hg]⟩
    | exchange ex spec n next => exact ⟨n, by rw [Caller.remaining, hg]⟩
  have hrest := Nat.mul_le_mul_left n hexchange
  rw [Caller.work, hn, Nat.add_sub_cancel, Nat.add_mul, Nat.one_mul]
  omega

/-- The bound on what can happen at an instant covers the work that is there. -/
theorem work_le_effort (s : Switchboard α ρ) :
    s.work s.callers.length s.wire.replyCount ≤ s.effort := by
  have hunit := unitWork_eq s.callers.length s.wire.replyCount
  have hinbox := sum_map_le (f := Signal.work s.callers.length s.wire.replyCount) (l := s.inbox)
    (n := unitWork s.callers.length s.wire.replyCount) fun x _ => by
      cases x <;> simp only [Signal.work, frameWork] <;> omega
  have hready := sum_map_le (f := Task.work s.callers.length s.wire.replyCount) (l := s.ready)
    (n := unitWork s.callers.length s.wire.replyCount) fun t _ => by
      cases t <;> simp only [Task.work, frameWork] <;> omega
  have hyielded : s.yielded.length * (s.callers.length + 2) ≤
      s.yielded.length * unitWork s.callers.length s.wire.replyCount :=
    Nat.mul_le_mul_left _ (by omega)
  have hcallers : callersWork s.callers.length s.wire.replyCount s.callers ≤
      (s.callers.map Caller.remaining).sum * unitWork s.callers.length s.wire.replyCount := by
    rw [callersWork, ← List.sum_map_mul_right]
    exact List.sum_le_sum fun c _ => work_caller_le c
  have hexchanges : s.callers.foldl (fun n c => n + c.remaining) 0 =
      (s.callers.map Caller.remaining).sum := by
    rw [List.sum_eq_foldl, List.foldl_map]
  rw [effort, hexchanges, ← Wire.replyCount, Nat.mul_assoc, ← unitWork, work, bustle]
  simp only [Nat.add_mul]
  omega

/-- Nothing is left to do once everything has happened. -/
theorem quiet_settle {s : Switchboard α ρ} (h : s.Orderly) : s.settle.Quiet :=
  quiet_happen h ⟨Nat.le_refl _, Nat.le_refl _⟩ s.work_le_effort

end Switchboard

end VenueLink

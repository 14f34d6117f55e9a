import VenueLink.Proofs.Switchboard.Owner

/-!
# The book of exchanges

Who runs which exchange, and as what, can be written down as the exchanges are registered: the
line of an exchange in the book names its caller and what it is about. Every request on the wire
is the one that the book has for its exchange, and every caller is at the line that it was
launched for or has come to since; what it goes on with is up to its plan, so whatever holds all
along the plans holds of the callers.

## Main results

* `sends_stride`, `sends_begin`: the requests that a caller sends in its turn are those of its
  exchange.
* `enrolledOver`: the exchanges that are registered in several events, each with its caller.
* `Booked.occur`, `Booked.after`: every event adds to the book the exchanges that are registered
  in it.
-/

namespace VenueLink

open Exchange Correlator

variable {α ρ : Type}

/-- All along a plan, whatever the exchanges come to, `q` holds of each exchange and what comes
after it. -/
def Exchange.Plan.Always (q : Spec α → (n : Nat) → (Resolution α → Plan α ρ n) → Prop)
    {n : Nat} : Plan α ρ n → Prop
  | .report _ => True
  | .exchange (n := n) spec next => q spec n next ∧ ∀ r, (next r).Always q

namespace Switchboard

/-! ### What is sent in a turn -/

/-- Between `s` and `s'` frames have been sent, none of which is a request but that of one
exchange. -/
def Sends (ex : Nat) (request : Json) (s s' : Switchboard α ρ) : Prop :=
  ∃ more, s'.wire.sent = s.wire.sent ++ more ∧
    ∀ x ∈ more, ∀ id, x.exchange = some id → id = ex ∧ x.frame = request

section Sends

variable {ex : Nat} {request : Json}

/-- Nothing is sent. -/
theorem Sends.refl (s : Switchboard α ρ) : Sends ex request s s :=
  ⟨[], by simp⟩

/-- Two stretches one after the other. -/
theorem Sends.trans {s₁ s₂ s₃ : Switchboard α ρ} (h₁ : Sends ex request s₁ s₂)
    (h₂ : Sends ex request s₂ s₃) : Sends ex request s₁ s₃ :=
  exists_append_trans h₁ h₂ fun hall₁ hall₂ => List.forall_mem_append.mpr ⟨hall₁, hall₂⟩

/-- What leaves everything aside sends no request. -/
theorem Aside.sends {s s' : Switchboard α ρ} (h : s.Aside [] s') : Sends ex request s s' := by
  obtain ⟨more, heq, hnone, -⟩ := h.sent
  refine ⟨more, heq, fun x hx id hid => ?_⟩
  rw [List.filterMap_eq_nil_iff.mp hnone x hx] at hid
  cases hid

/-- The only frame that is sent is the request. -/
theorem sends_transmit {s s' : Switchboard α ρ} (h : s.transmit (some ex) request = .ok s') :
    Sends ex request s s' := by
  rw [transmit, Wire.send] at h
  split at h
  · split at h
    · cases h
      rw [Sends, wire_hear]
      refine ⟨_, rfl, fun x hx id hid => ?_⟩
      obtain rfl := List.mem_singleton.mp hx
      exact ⟨(Option.some.inj hid).symm, rfl⟩
    · cases h
  · cases h

/-- In a motion a caller sends the request of its exchange at most. -/
theorem Motion.sends {k : Nat} {spec : Spec α} {s s' : Switchboard α ρ}
    (h : Motion k (some (ex, spec)) s s') : Sends ex spec.request s s' := by
  rcases h.aside_or with haside | rfl | ⟨ex', spec', heq, hsend | rfl⟩
  · exact haside.sends
  · exact .refl s
  · cases heq
    exact sends_transmit hsend
  · exact .refl s

/-- And so in several. -/
theorem Motions.sends {k : Nat} {spec : Spec α} {s s' : Switchboard α ρ}
    (h : Motions k (some (ex, spec)) s s') : Sends ex spec.request s s' := by
  induction h with
  | refl => exact .refl s
  | tail _ hlast ih => exact ih.trans hlast.sends

end Sends

/-- A caller that begins an exchange sends no other request. -/
theorem sends_begin (s : Switchboard α ρ) (k : Nat) (spec : Spec α) :
    Sends s.correlator.next spec.request s (s.begin k spec).1 := by
  obtain ⟨s₁, hmotions, heq⟩ := exists_motions_begin k spec s
  rcases heq with heq | heq <;> rw [heq] <;> exact hmotions.sends

/-- A caller that gets on with its exchange sends no other request. -/
theorem sends_stride (s : Switchboard α ρ) (ex : Nat) (spec : Spec α) (c : Caller α ρ) :
    Sends ex spec.request s (s.stride c ex spec).1 :=
  (motions_stride ex spec s c).sends

/-! ### What is registered -/

/-- The exchanges that a caller registers when it starts on a plan, in order: all up to the
first one that has not failed by the end of the turn. -/
def enrolledBy (s : Switchboard α ρ) (k : Nat) {n : Nat} : Plan α ρ n → List (Nat × Spec α)
  | .report _ => []
  | .exchange spec next =>
    (k, spec) :: match (s.begin k spec).1.ending? s.correlator.next (s.begin k spec).2 with
      | some r => (s.begin k spec).1.enrolledBy k (next r)
      | none => []

/-- The exchanges that a caller registers in its turn: those that come after its own, if that
has ended. -/
def enrolledWith (s : Switchboard α ρ) (c : Caller α ρ) : List (Nat × Spec α) :=
  match c.goal with
  | .readiness _ => []
  | .exchange ex spec _ next =>
    match (s.stride c ex spec).1.ending? ex (s.stride c ex spec).2 with
    | some r => (s.stride c ex spec).1.enrolledBy c.id (next r)
    | none => []

/-- What a caller at an exchange registers in its turn. -/
theorem enrolledWith_exchange (s : Switchboard α ρ) {c : Caller α ρ} {ex : Nat} {spec : Spec α}
    {n : Nat} {next : Resolution α → Plan α ρ n} (hg : c.goal = .exchange ex spec n next) :
    s.enrolledWith c =
      match (s.stride c ex spec).1.ending? ex (s.stride c ex spec).2 with
      | some r => (s.stride c ex spec).1.enrolledBy c.id (next r)
      | none => [] := by
  rw [enrolledWith, hg]

/-- The exchanges that are registered when what is ready first is done. -/
def enrolledNext (s : Switchboard α ρ) : List (Nat × Spec α) :=
  match s.ready with
  | .caller k :: rest =>
    match s.caller? k with
    | some c => ({ s with ready := rest } : Switchboard α ρ).enrolledWith c
    | none => []
  | _ => []

/-- The exchanges that are registered in an event, each with its caller. -/
def enrolledIn (s : Switchboard α ρ) : Event α ρ → List (Nat × Spec α)
  | .next => s.enrolledNext
  | .act (.launch _ _ plan) => s.enlist.enrolledBy s.next plan
  | .act (.listen _ m timeout _) => [(s.next, listening m timeout)]
  | _ => []

/-- The exchanges that are registered in several events, each with its caller; the place in the
list is the id of the exchange, if the list starts with the first one. -/
def enrolledOver (s : Switchboard α ρ) : List (Event α ρ) → List (Nat × Spec α)
  | [] => []
  | e :: rest => s.enrolledIn e ++ (s.occur e).enrolledOver rest

/-- What is registered in events one part after the other. -/
theorem enrolledOver_append (s : Switchboard α ρ) (xs ys : List (Event α ρ)) :
    s.enrolledOver (xs ++ ys) = s.enrolledOver xs ++ (s.after xs).enrolledOver ys := by
  induction xs generalizing s with
  | nil => rfl
  | cons e rest ih =>
    rw [List.cons_append, enrolledOver, ih, enrolledOver, List.append_assoc]
    rfl

/-! ### The book -/

/-- What callers may run, and what they may go on with after that. -/
abbrev Habit (α ρ : Type) : Type :=
  Nat → Spec α → (n : Nat) → (Resolution α → Plan α ρ n) → Prop

/-- A caller is at its line of the book, and all that it runs is as `q` says. -/
def InBook (q : Habit α ρ) (book : List (Nat × Spec α)) (k : Nat) : Goal α ρ → Prop
  | .readiness _ => True
  | .exchange ex spec n next =>
    book[ex]? = some (k, spec) ∧ q k spec n next ∧ ∀ r, (next r).Always (q k)

/-- A line stays where it is when more are added. -/
theorem getElem?_append_of_eq_some {β : Type} {l : List β} {i : Nat} {b : β}
    (h : l[i]? = some b) (more : List β) : (l ++ more)[i]? = some b := by
  obtain ⟨hlt, -⟩ := List.getElem?_eq_some_iff.mp h
  rw [List.getElem?_append_left hlt, h]

/-- So a caller is at its line still. -/
theorem InBook.append {q : Habit α ρ} {book : List (Nat × Spec α)} {k : Nat} {g : Goal α ρ}
    (h : InBook q book k g) (more : List (Nat × Spec α)) : InBook q (book ++ more) k g := by
  cases g with
  | readiness tell => trivial
  | exchange ex spec n next => exact ⟨getElem?_append_of_eq_some h.1 more, h.2⟩

/-- The book has a line for every exchange, the callers are at their lines, and the requests on
the wire are those of the book. -/
structure Booked (q : Habit α ρ) (book : List (Nat × Spec α)) (s : Switchboard α ρ) : Prop where
  length_eq : book.length = s.correlator.next
  goals : ∀ c ∈ s.callers, InBook q book c.id c.goal
  frames : ∀ x ∈ s.wire.sent, ∀ ex, x.exchange = some ex →
    ∃ k spec, book[ex]? = some (k, spec) ∧ x.frame = spec.request

/-- Who is launched in an event does as `q` says. -/
def Event.Heeds (q : Habit α ρ) (k : Nat) : Event α ρ → Prop
  | .act (.launch _ _ plan) => plan.Always (q k)
  | .act (.listen _ m timeout tell) => q k (listening m timeout) 0 fun r => .report (tell r)
  | _ => True

section Booked

variable {q : Habit α ρ} {book : List (Nat × Spec α)} {s s' : Switchboard α ρ}

/-- Some lines more are enough for a later state. -/
theorem Booked.grow (h : Booked q book s) (more : List (Nat × Spec α))
    (hlength : s'.correlator.next = s.correlator.next + more.length)
    (hgoals : ∀ d ∈ s'.callers, d ∈ s.callers ∨ InBook q (book ++ more) d.id d.goal)
    (hsent : ∃ frames, s'.wire.sent = s.wire.sent ++ frames ∧ ∀ x ∈ frames, ∀ ex,
      x.exchange = some ex → ∃ k spec, (book ++ more)[ex]? = some (k, spec) ∧
        x.frame = spec.request) : Booked q (book ++ more) s' where
  length_eq := by rw [List.length_append, h.length_eq, hlength]
  goals d hd := (hgoals d hd).elim (fun hold => (h.goals d hold).append more) id
  frames x hx ex hex := by
    obtain ⟨frames, heq, hall⟩ := hsent
    rw [heq] at hx
    rcases List.mem_append.mp hx with hold | hnew
    · obtain ⟨k, spec, hline, hframe⟩ := h.frames x hold ex hex
      exact ⟨k, spec, getElem?_append_of_eq_some hline more, hframe⟩
    · exact hall x hnew ex hex

/-- No exchange is registered, and no request is sent. -/
theorem Booked.of_silent (h : Booked q book s) (hnext : s'.correlator.next = s.correlator.next)
    (hgoals : ∀ d ∈ s'.callers, d ∈ s.callers ∨ InBook q book d.id d.goal)
    (hsent : ∃ frames, s'.wire.sent = s.wire.sent ++ frames ∧ ∀ x ∈ frames, x.exchange = none) :
    Booked q book s' := by
  obtain ⟨frames, heq, hnone⟩ := hsent
  have hgrow : Booked q (book ++ []) s' := h.grow [] hnext (by simpa using hgoals)
    ⟨frames, heq, fun x hx ex hex => by simp [hnone x hx] at hex⟩
  rwa [List.append_nil] at hgrow

/-- What leaves everything aside leaves the book right. -/
theorem Booked.aside (h : Booked q book s) (ha : s.Aside [] s') : Booked q book s' := by
  obtain ⟨more, heq, hnone, -⟩ := ha.sent
  exact h.of_silent (congrArg Correlator.next ha.correlator_eq)
    (fun d hd => .inl (ha.callers_eq ▸ hd)) ⟨more, heq, List.filterMap_eq_nil_iff.mp hnone⟩

/-- A caller is kept at its line. -/
theorem Booked.keep (h : Booked q book s) (hnd : (s.callers.map Caller.id).Nodup)
    {c : Caller α ρ} (hc : InBook q book c.id c.goal) : Booked q book (s.keep c) :=
  h.of_silent rfl (fun d hd => by
    rcases (mem_keep hnd).mp hd with rfl | ⟨hold, -⟩
    · exact .inr hc
    · exact .inl hold) ⟨[], by simp [Switchboard.keep]⟩

/-- A caller goes. -/
theorem Booked.dismiss (h : Booked q book s) (k : Nat) : Booked q book (s.dismiss k) :=
  h.of_silent rfl (fun _ hd => .inl (List.mem_filter.mp hd).1)
    ⟨[], by simp [Switchboard.dismiss, disarm]⟩

/-- A caller answers and goes. -/
theorem Booked.finish (h : Booked q book s) (k : Nat) (label : String) (r : ρ) :
    Booked q book (s.finish k label r) :=
  h.of_silent rfl (fun _ hd => .inl (List.mem_filter.mp hd).1)
    ⟨[], by simp [Switchboard.finish, Switchboard.dismiss, disarm]⟩

/-- No line is added. -/
theorem Booked.append_nil (h : Booked q book s) {more : List (Nat × Spec α)}
    (hmore : more = []) : Booked q (book ++ more) s := by
  rw [hmore, List.append_nil]
  exact h

/-- A new number is given out. -/
theorem Booked.enlist (h : Booked q book s) : Booked q book s.enlist :=
  ⟨h.length_eq, h.goals, h.frames⟩

/-- A task is taken up. -/
theorem Booked.pop (h : Booked q book s) (rest : List Task) :
    Booked q book ({ s with ready := rest } : Switchboard α ρ) :=
  ⟨h.length_eq, h.goals, h.frames⟩

/-- Those who have yielded go on. -/
theorem Booked.resume (h : Booked q book s) : Booked q book s.resume :=
  ⟨h.length_eq, h.goals, h.frames⟩

/-- Signals are taken out. -/
theorem Booked.collect (h : Booked q book s) : Booked q book (s.occur .collect) :=
  ⟨h.length_eq, h.goals, h.frames⟩

/-- No caller has a turn. -/
theorem Booked.passes (h : Booked q book s) {expired : List Nat} (hp : Passes expired s s') :
    Booked q book s' := by
  obtain ⟨ended, hends, -⟩ := hp.ends
  exact h.of_silent hends.next_eq (fun d hd => .inl (hp.callers_eq ▸ hd)) hp.sent

/-- An exchange is begun on a new line. -/
theorem Booked.begin (h : Booked q book s) (k : Nat) (spec : Spec α) :
    Booked q (book ++ [(k, spec)]) (s.begin k spec).1 := by
  obtain ⟨frames, heq, hall⟩ := s.sends_begin k spec
  have hnext := congrArg List.length (s.confined_begin k spec).2
  refine h.grow [(k, spec)] (by simpa [Correlator.next] using hnext)
    (fun d hd => .inl ((s.stays_begin k spec).callers_eq ▸ hd))
      ⟨frames, heq, fun x hx ex hex => ?_⟩
  obtain ⟨rfl, hframe⟩ := hall x hx ex hex
  exact ⟨k, spec, by rw [← h.length_eq, List.getElem?_concat_length], hframe⟩

/-- A caller that starts on a plan adds its lines. -/
theorem Booked.pursue {n : Nat} {plan : Plan α ρ n} {k : Nat} (hplan : plan.Always (q k))
    (hnd : (s.callers.map Caller.id).Nodup) (h : Booked q book s) (label : String) :
    Booked q (book ++ s.enrolledBy k plan) (s.pursue k label plan) := by
  induction plan generalizing s book with
  | report r => exact (h.finish k label r).append_nil rfl
  | exchange spec next ih =>
    obtain ⟨hq, hnext⟩ := hplan
    have hbegin := h.begin k spec
    have hnd₁ : ((s.begin k spec).1.callers.map Caller.id).Nodup :=
      (s.stays_begin k spec).callers_eq ▸ hnd
    rw [pursue_exchange, enrolledBy]
    generalize s.begin k spec = p at hbegin hnd₁ ⊢
    obtain ⟨s₁, stage⟩ := p
    cases s₁.ending? s.correlator.next stage with
    | none =>
      refine hbegin.keep hnd₁ ⟨?_, hq, hnext⟩
      rw [← h.length_eq, List.getElem?_concat_length]
    | some r =>
      have hrest := ih r (hnext r) hnd₁ hbegin
      rwa [List.append_assoc] at hrest

/-- A caller in its turn adds the lines that it comes to. -/
theorem Booked.tend (h : Booked q book s) (hnd : (s.callers.map Caller.id).Nodup)
    {c : Caller α ρ} (hc : c ∈ s.callers) : Booked q (book ++ s.enrolledWith c) (s.tend c) := by
  have hgoal := h.goals c hc
  cases hg : c.goal with
  | readiness tell =>
    have haccess := s.aside_access c.stage
    have hbooked := h.aside haccess
    have hnd₁ : ((s.access c.stage).1.callers.map Caller.id).Nodup := haccess.callers_eq ▸ hnd
    refine Booked.append_nil ?_ (by rw [enrolledWith, hg])
    rw [tend_readiness s hg]
    generalize s.access c.stage = p at hbooked hnd₁ ⊢
    obtain ⟨s₁, access⟩ := p
    cases access with
    | blocked stage => exact hbooked.keep hnd₁ hgoal
    | granted readiness => exact hbooked.finish c.id c.label _
    | refused e => exact hbooked.finish c.id c.label _
  | exchange ex spec n next =>
    rw [hg] at hgoal
    obtain ⟨frames, heq, hall⟩ := s.sends_stride ex spec c
    have hdeadlines := congrArg List.length (s.confined_stride c ex spec).2
    have hcallers := (s.stays_stride c ex spec).callers_eq
    rw [tend_exchange s hg, s.enrolledWith_exchange hg]
    generalize s.stride c ex spec = p at heq hdeadlines hcallers ⊢
    obtain ⟨s₁, stage⟩ := p
    have hbooked : Booked q book s₁ := by
      rw [← List.append_nil book]
      refine h.grow [] hdeadlines (fun d hd => .inl (hcallers ▸ hd))
        ⟨frames, heq, fun x hx id hid => ?_⟩
      obtain ⟨rfl, hframe⟩ := hall x hx id hid
      exact ⟨c.id, spec, getElem?_append_of_eq_some hgoal.1 [], hframe⟩
    have hnd₁ : (s₁.callers.map Caller.id).Nodup := hcallers ▸ hnd
    cases s₁.ending? ex stage with
    | none =>
      refine (hbooked.keep hnd₁ ?_).append_nil rfl
      rw [hg]
      exact hgoal
    | some r => exact Booked.pursue (hgoal.2.2 r) hnd₁ hbooked c.label

/-- What is ready first adds lines only if it is a caller's turn. -/
theorem Booked.next (ho : s.Orderly) (h : Booked q book s) :
    Booked q (book ++ s.enrolledNext) (s.occur .next) := by
  rw [enrolledNext]
  split
  · next k rest hr =>
    have hsame : ({ s with ready := rest } : Switchboard α ρ).caller? k = s.caller? k := rfl
    rw [occur_next_of_ready hr, perform, hsame]
    cases hf : s.caller? k with
    | none => exact (h.pop rest).append_nil rfl
    | some c => exact (h.pop rest).tend ho.ids_nodup (mem_of_caller?_eq_some hf).1
  · next hr =>
    have hocc := occurs_next ho
    refine Booked.append_nil ?_ rfl
    generalize s.occur .next = s' at hocc ⊢
    cases hocc with
    | pass hp _ => exact h.passes hp
    | resume _ => exact h.resume
    | turn hr' _ => exact absurd hr' (hr _ _)

/-- What is done from outside adds lines only if it brings a caller. -/
theorem Booked.act (ho : s.Orderly) (h : Booked q book s) {step : Step α ρ}
    (he : (Event.act step).Heeds q s.next) :
    Booked q (book ++ s.enrolledIn (.act step)) (s.occur (.act step)) := by
  have hocc := occurs_act ho step
  cases step with
  | launch label n plan => exact Booked.pursue (s := s.enlist) he ho.ids_nodup h.enlist label
  | listen label m timeout tell =>
    have hline : (book ++ [(s.next, listening m timeout)])[s.correlator.next]? =
        some (s.next, listening m timeout) := by
      rw [← h.length_eq, List.getElem?_concat_length]
    have hnew : Booked q (book ++ [(s.next, listening m timeout)])
        (s.enlist.enrol (listening m timeout)) :=
      h.grow [(s.next, listening m timeout)] (next_enrol _ _) (fun d hd => .inl hd)
        ⟨[], by simp [Switchboard.enrol, Switchboard.enlist]⟩
    exact hnew.keep (c := ⟨s.next, label, .waiting, false, .exchange s.correlator.next
      (listening m timeout) 0 fun r => .report (tell r)⟩) ho.ids_nodup
      ⟨hline, he, fun _ => trivial⟩
  | ensureOpen label tell =>
    have hseek := s.enlist.aside_seekOpen s.next
    have hbooked := h.enlist.aside hseek
    have hnd : ((s.enlist.seekOpen s.next).1.callers.map Caller.id).Nodup :=
      hseek.callers_eq ▸ ho.ids_nodup
    have heq : s.occur (.act (.ensureOpen label tell)) = s.ensureOpen label tell := rfl
    refine Booked.append_nil ?_ rfl
    rw [heq, ensureOpen_eq]
    generalize s.enlist.seekOpen s.next = p at hbooked hnd ⊢
    obtain ⟨s₁, access⟩ := p
    cases access with
    | blocked stage => exact hbooked.keep hnd trivial
    | granted readiness => exact hbooked.finish _ _ _
    | refused e => exact hbooked.finish _ _ _
  | cancel label =>
    refine Booked.append_nil ?_ rfl
    generalize s.occur (.act (.cancel label)) = s' at hocc ⊢
    cases hocc with
    | pass hp _ => exact h.passes hp
    | leave _ _ => exact (h.aside (s.aside_stopAt _)).dismiss _
  | _ =>
    refine Booked.append_nil ?_ rfl
    generalize s.occur (.act _) = s' at hocc ⊢
    cases hocc with
    | pass hp _ => exact h.passes hp

/-- Every event adds to the book the exchanges that are registered in it. -/
theorem Booked.occur (ho : s.Orderly) (h : Booked q book s) {e : Event α ρ}
    (he : e.Heeds q s.next) : Booked q (book ++ s.enrolledIn e) (s.occur e) := by
  cases e with
  | act step => exact h.act ho he
  | next => exact h.next ho
  | tick instant =>
    have ht := s.ticked_tick instant
    have hwire : (s.occur (.tick instant)).wire = s.wire := by rw [ht.same]
    refine Booked.append_nil ?_ rfl
    refine h.of_silent (congrArg Correlator.next ht.correlator_eq) (fun d hd => .inr ?_)
      ⟨[], by simp [hwire]⟩
    obtain ⟨c, hc, hcd, -⟩ := ht.mem_callers hd
    rw [← hcd.id_eq, ← hcd.goal_eq]
    exact h.goals c hc
  | collect => exact h.collect.append_nil rfl
  | hush => exact (h.pop _).append_nil rfl

end Booked

/-- Everybody who is launched in the events does as `q` says. -/
def Heedful (q : Habit α ρ) (s : Switchboard α ρ) : List (Event α ρ) → Prop
  | [] => True
  | e :: rest => e.Heeds q s.next ∧ (s.occur e).Heedful q rest

/-- Everybody heeds `q` in events one part after the other. -/
theorem heedful_append {q : Habit α ρ} {s : Switchboard α ρ} {xs ys : List (Event α ρ)} :
    s.Heedful q (xs ++ ys) ↔ s.Heedful q xs ∧ (s.after xs).Heedful q ys := by
  induction xs generalizing s with
  | nil => simp [Heedful, Switchboard.after]
  | cons e rest ih => rw [List.cons_append, Heedful, ih, Heedful, after_cons, and_assoc]

/-- Later events add to the book the exchanges that are registered in them. -/
theorem Booked.after {q : Habit α ρ} {book : List (Nat × Spec α)} {s : Switchboard α ρ}
    (h : Booked q book s) (ho : s.Orderly) {events : List (Event α ρ)}
    (he : s.Heedful q events) : Booked q (book ++ s.enrolledOver events) (s.after events) := by
  induction events generalizing s book with
  | nil => exact h.append_nil rfl
  | cons e rest ih =>
    have hrest := ih (h.occur ho he.1) (ho.after [e]) he.2
    rwa [List.append_assoc] at hrest

end Switchboard

end VenueLink

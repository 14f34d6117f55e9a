import Mathlib.Data.List.Permutation
import VenueLink.Proofs.Switchboard.Endings
import VenueLink.Proofs.Switchboard.Punctual

/-!
# Answers that are there are in time

Everything that timers set off at an instant is done before exchanges expire at it, in whatever
order the timers were set: these wake callers and bring the news of connections, callers send
what they have to say and hear the replies, and the signals are handled. So an exchange does not
time out while a message that it accepts is waiting for the dispatcher. The message stays where
it is until the signals are handled, and so does its exchange: meanwhile only callers have their
turns, over a connection that is open, and the exchanges that they begin come behind it. No
signals are left when exchanges expire. What comes in after that, because the caller of an
expired exchange goes on, is too late for those that expire with it.

## Main results

* `Alert.occur`: what every event of a run preserves: signals that are taken in are about to be
  handled, and none is left when exchanges expire.
* `Pledged.next`: a message that has been taken in remains for its exchange, or the exchange
  ends.
* `timeout_of_busy`: no exchange times out as long as something else is ready.
* `answers_are_in_time`: an exchange ends at the instant at which its answer has been taken in,
  and does not time out.
-/

namespace VenueLink.Switchboard

open Exchange Correlator

variable {α ρ : Type}

/-! ### Nobody changes who handles the signals -/

/-- Callers that are woken do not handle signals. -/
theorem manual_wakeWhere (s : Switchboard α ρ) (p : Caller α ρ → Bool) :
    (s.wakeWhere p).manual = s.manual := by
  rw [wakeWhere_eq]

/-- Nor does a signal. -/
theorem manual_handle (s : Switchboard α ρ) (x : Signal) : (s.handle x).manual = s.manual := by
  simp only [handle]
  split
  · rfl
  · cases x with
    | opened g =>
      refine (manual_wakeWhere _ _).trans ?_
      change s.greet.manual = s.manual
      rw [greet]
      split
      · rfl
      · split
        · exact manual_hear _ _
        · rfl
    | message g m =>
      simp only [dispatch]
      rw [foldl_wakeWaiting_eq]
    | closed g reason =>
      dsimp only
      rw [failAll, foldl_wakeWaiting_eq]
      exact manual_wakeWhere _ _

/-- Nor do all of them. -/
theorem manual_drain (s : Switchboard α ρ) : s.drain.manual = s.manual := by
  have hfold : ∀ (l : List Signal) (s : Switchboard α ρ),
      (l.foldl handle s).manual = s.manual := by
    intro l
    induction l with
    | nil => exact fun _ => rfl
    | cons x rest ih => exact fun s => (ih _).trans (s.manual_handle x)
  exact (hfold _ { s.sift with inbox := [] }).trans (hfold _ { s with inbox := [] })

/-- The watch over an exchange takes nothing in. -/
theorem gathers_getOn (s : Switchboard α ρ) (id : Nat) : Gathers s (s.getOn id) := by
  rw [getOn_eq]
  exact gathers_of_eq rfl rfl rfl rfl (List.Subset.refl _)

/-! ### Between the events of a run -/

/-- The signals that have been taken in are about to be handled. Messages are among them only
while the connection is open, or when they are handled next. Exchanges that are about to expire
do so before all else, and none is while there are signals. -/
structure Alert (s : Switchboard α ρ) : Prop where
  automatic : s.manual = false
  attends : s.Attends
  carried : ∀ g m, .message g m ∈ s.inbox → s.ready.head? = some .signals ∨ s.Connected
  expiring : ∃ ids rest, s.ready = ids.map Task.expire ++ rest ∧ (∀ id, .expire id ∉ rest) ∧
    (ids ≠ [] → s.inbox = [])

section Alert

variable {s s' : Switchboard α ρ}

/-- Where nobody is about to handle signals, there are none. -/
theorem Alert.inbox_eq_nil (h : s.Alert) (hno : .signals ∉ s.ready) : s.inbox = [] := by
  by_contra hne
  exact hno (h.attends hne)

/-- Nor are there any when an exchange is about to expire. -/
theorem Alert.inbox_eq_nil_of_expire (h : s.Alert) {id : Nat} (hid : .expire id ∈ s.ready) :
    s.inbox = [] := by
  obtain ⟨ids, rest, heq, hrest, hinbox⟩ := h.expiring
  refine hinbox fun hnil => hrest id ?_
  rw [heq, hnil] at hid
  exact hid

/-- Nothing is about to expire if something else is done first. -/
theorem Alert.unexpired (h : s.Alert) (hhead : ∀ id, s.ready.head? ≠ some (.expire id))
    (id : Nat) : .expire id ∉ s.ready := by
  obtain ⟨ids, rest, heq, hrest, -⟩ := h.expiring
  cases ids with
  | nil => exact heq ▸ hrest id
  | cons i more => exact absurd (by rw [heq]; rfl) (hhead i)

/-- As long as no exchange is about to expire, the signals are all that matters. -/
theorem alert_of_unexpired (hmanual : s.manual = false) (hattends : s.Attends)
    (hcarried : ∀ g m, .message g m ∈ s.inbox → s.ready.head? = some .signals ∨ s.Connected)
    (hno : ∀ id, .expire id ∉ s.ready) : s.Alert :=
  ⟨hmanual, hattends, hcarried, [], s.ready, rfl, hno, fun hne => absurd rfl hne⟩

/-- Without signals nothing does. -/
theorem alert_of_inbox_eq_nil (hmanual : s.manual = false) (hinbox : s.inbox = [])
    (hno : ∀ id, .expire id ∉ s.ready) : s.Alert :=
  alert_of_unexpired hmanual (fun hne => absurd hinbox hne)
    (fun _ _ hm => absurd (hinbox ▸ hm) List.not_mem_nil) hno

/-- Signals may be taken in from an open connection. -/
theorem alert_of_gathers (hmanual : s.manual = false) (hattends : s.Attends)
    (hcarried : ∀ g m, .message g m ∈ s.inbox → s.Connected) (hg : Gathers s s')
    (hno : ∀ id, .expire id ∉ s'.ready) : s'.Alert := by
  refine alert_of_unexpired (hg.manual_eq.trans hmanual) (hg.attends hmanual hattends)
    (fun g m hm => .inr ?_) hno
  exact hg.messages.elim id fun hold => hg.connected (hcarried g m (hold g m hm))

/-- What is done from outside when nothing is left to do. -/
theorem Alert.act (h : s.Alert) (ho : s.Orderly) (hq : s.Quiet) {t : Step α ρ}
    (hown : ∀ x, t ≠ .signal x) : (s.occur (.act t)).Alert := by
  have hinbox : s.inbox = [] := h.inbox_eq_nil (hq.1 ▸ List.not_mem_nil)
  have hno : ∀ id, .expire id ∉ (s.occur (.act t)).ready := fun id hid => by
    rcases (occurs_act ho t).expiring ho hid with hr | ⟨-, hyielded⟩
    · rw [hq.1] at hr
      cases hr
    · rw [hq.2] at hyielded
      cases hyielded
  have hturn : Gathers s (s.occur (.act t)) → (s.occur (.act t)).Alert := fun hg =>
    alert_of_gathers h.automatic h.attends (fun g m hm => by simp [hinbox] at hm) hg hno
  have henlist : Gathers s s.enlist := gathers_of_eq rfl rfl rfl rfl (List.Subset.refl _)
  cases t with
  | wire c =>
    refine alert_of_unexpired ((manual_hear _ _).trans h.automatic)
      (Attends.hear (s := { s with wire := (s.wire.control c).1 }) h.attends h.automatic _)
      (fun g m hm => .inl ?_) hno
    -- nothing else is ready, so what the wire has told is handled next
    change .message g m ∈ (({ s with wire := (s.wire.control c).1 } : Switchboard α ρ).hear
      (s.wire.control c).2).inbox at hm
    change (({ s with wire := (s.wire.control c).1 } : Switchboard α ρ).hear
      (s.wire.control c).2).ready.head? = _
    rw [inbox_hear] at hm
    cases hsignals : (s.wire.control c).2 with
    | nil => simp [hsignals, hinbox] at hm
    | cons x rest => simp [hear, enqueue, h.automatic, hq.1]
  | setHandshake handshake => exact alert_of_inbox_eq_nil h.automatic hinbox hno
  | launch label n plan => exact hturn (henlist.trans (s.enlist.turn_pursue _ _ _).gathers)
  | ensureOpen label tell => exact hturn (henlist.trans (s.turn_ensureOpen label tell).gathers)
  | listen label m timeout tell =>
    exact hturn (gathers_of_eq rfl rfl rfl rfl fun _ => (s.aside_watch _).mem_ready)
  | cancel label =>
    refine hturn ?_
    change Gathers s (s.cancel label)
    rw [cancel]
    split
    · next c _ => exact (s.motions_stopAt c.id none c.stage).gathers.trans (gathers_dismiss _ _)
    · exact .refl s
  | transmit frame =>
    refine hturn ?_
    change Gathers s (s.act (.transmit frame)).1
    rw [Switchboard.act]
    split
    · next hsend => exact gathers_transmit hsend
    · exact .refl s
  | pump => exact alert_of_inbox_eq_nil ((manual_drain s).trans h.automatic) (inbox_drain s) hno
  | signal x => exact absurd rfl (hown x)
  | advance duration => exact h

/-- The first one of those that are about to expire does. -/
theorem Alert.expire (h : s.Alert) {id : Nat} {rest : List Task}
    (hr : s.ready = .expire id :: rest) :
    (({ s with ready := rest } : Switchboard α ρ).perform (.expire id)).Alert := by
  have hinbox : s.inbox = [] := h.inbox_eq_nil_of_expire (hr ▸ List.mem_cons_self)
  obtain ⟨ids, others, heq, hothers, -⟩ := h.expiring
  rw [hr] at heq
  cases ids with
  | nil =>
    have hmem : .expire id ∈ others :=
      (show Task.expire id :: rest = others from heq) ▸ List.mem_cons_self
    exact absurd hmem (hothers id)
  | cons i ids =>
    obtain rfl : rest = ids.map Task.expire ++ others := (List.cons.inj heq).2
    let s₀ : Switchboard α ρ := { s with
      ready := ids.map Task.expire ++ others
      correlator := s.correlator.expire s.now id }
    obtain ⟨more, hmore, hnone⟩ := (s₀.aside_wakeWhere
      fun c => c.stage = .waiting && c.goal.exchange? = some id).ready
    have hinbox' : (s₀.wakeWaiting id).inbox = [] := by
      rw [wakeWaiting, wakeWhere_eq]
      exact hinbox
    refine ⟨(s₀.manual_wakeWhere _).trans h.automatic, fun hne => absurd hinbox' hne,
      fun _ _ hm => absurd (hinbox' ▸ hm) List.not_mem_nil, ids, others ++ more, ?_,
        fun i hi => ?_,
      fun _ => hinbox'⟩
    · exact hmore.trans (List.append_assoc _ _ _)
    · exact (List.mem_append.mp hi).elim (hothers i) (hnone i)

/-- What is ready first is done. -/
theorem Alert.next (h : s.Alert) (ho : s.Orderly) : (s.occur .next).Alert := by
  cases hr : s.ready with
  | nil =>
    have hinbox : s.inbox = [] := h.inbox_eq_nil (hr ▸ List.not_mem_nil)
    rw [occur_next_of_nil hr]
    exact ⟨h.automatic, fun hne => absurd hinbox hne,
      fun _ _ hm => absurd (hinbox ▸ hm) List.not_mem_nil, s.yielded.reverse, [],
      (List.append_nil _).symm, fun _ => List.not_mem_nil, fun _ => hinbox⟩
  | cons t rest =>
    have hold : ∀ id, .expire id ∈ (s.occur .next).ready → .expire id ∈ s.ready := fun id hid =>
      ((occurs_next ho).expiring ho hid).resolve_right fun ⟨hnil, _⟩ => by simp [hr] at hnil
    have hno : (∀ id, t ≠ .expire id) →
        ∀ id, .expire id ∉ (s.occur .next).ready := fun ht id hid =>
      h.unexpired (fun i => by simpa [hr] using ht i) id (hold id hid)
    have hattends : t ≠ .signals → ({ s with ready := rest } : Switchboard α ρ).Attends :=
      fun ht hne => (List.mem_cons.mp (hr ▸ h.attends hne)).resolve_left (Ne.symm ht)
    have hcarried : t ≠ .signals → ∀ g m, .message g m ∈ s.inbox →
        s.Connected := fun ht g m hm =>
      (h.carried g m hm).resolve_left (by simpa [hr] using ht)
    rw [occur_next_of_ready hr] at hno ⊢
    cases t with
    | signals =>
      exact alert_of_inbox_eq_nil ((manual_drain _).trans h.automatic) (inbox_drain _)
        (hno (by simp))
    | caller k =>
      refine alert_of_gathers (s := { s with ready := rest }) h.automatic (hattends (by simp))
        (hcarried (by simp)) ?_ (hno (by simp))
      rw [perform]
      split
      · exact (turn_tend _ _).gathers
      · exact .refl _
    | announce g =>
      exact alert_of_gathers (s := { s with ready := rest }) h.automatic (hattends (by simp))
        (hcarried (by simp)) (gathers_hear _ (.inr (by simp))) (hno (by simp))
    | watch id =>
      exact alert_of_gathers (s := { s with ready := rest }) h.automatic (hattends (by simp))
        (hcarried (by simp)) (gathers_getOn _ id) (hno (by simp))
    | expire id => exact h.expire hr

/-- When the clock comes to an instant, no exchange is about to expire before the timers have
run out. -/
theorem unexpired_tick (hq : s.Quiet) (instant id : Nat) :
    .expire id ∉ (s.occur (.tick instant)).ready := by
  intro hid
  have hmem := (s.ticked_tick instant).unexpired hid
  rw [hq.1] at hmem
  cases hmem

/-- The clock takes in no signal. -/
theorem Alert.tick (h : s.Alert) (hq : s.Quiet) (instant : Nat) :
    (s.occur (.tick instant)).Alert := by
  have ht := s.ticked_tick instant
  have hinbox : s.inbox = [] := h.inbox_eq_nil (hq.1 ▸ List.not_mem_nil)
  refine alert_of_inbox_eq_nil ?_ ?_ (unexpired_tick hq instant)
  · rw [ht.same]
    exact h.automatic
  · rw [ht.same]
    exact hinbox

end Alert

/-- An event of a run that brings no signal from elsewhere. -/
def Event.Own : Event α ρ → Prop
  | .act (.signal _) => False
  | _ => True

section Occur

variable {s : Switchboard α ρ} (ho : s.Orderly) {e : Event α ρ} (hp : s.Prompt e) (he : e.Own)
include ho hp he

/-- Every event of a run keeps up the alert. -/
theorem Alert.occur (h : s.Alert) : (s.occur e).Alert := by
  cases e with
  | act t => exact h.act ho hp fun x heq => by simp [heq, Event.Own] at he
  | next => exact h.next ho
  | tick instant => exact h.tick hp.1 instant
  | collect => exact hp.elim
  | hush => exact hp.elim

/-- And the connection in tune. -/
theorem InTune.occur (h : s.InTune) : (s.occur e).InTune := by
  have hplays : PlaysTo Move.Own s (s.occur e) := by
    have hplain : ∀ t : Step α ρ, t.Plain → PlaysTo Move.Own s (s.occur (.act t)) := fun t ht =>
      s.occur_act_of_plain ht ▸ playsTo_move s (m := .act t ht) trivial
    cases e with
    | act t =>
      cases t with
      | pump => exact playsTo_drain (fun _ hm => hm) s
      | signal x => exact he.elim
      | advance duration => exact .refl _ _
      | _ => exact hplain _ trivial
    | next => exact playsTo_next (fun _ hm => hm) s
    | tick instant => exact playsTo_move s (m := .tick instant) trivial
    | collect => exact hp.elim
    | hush => exact hp.elim
  obtain ⟨moves, hmoves, heq⟩ := hplays
  rw [heq]
  exact inTune_play ho h hmoves

end Occur

/-! ### An exchange whose answer has been taken in -/

/-- While the latest connection is that of the generation `g`, a message has been taken in
behind the signals of `front`, and it will get to the exchange `id` if none of those ends that.
-/
structure Pledged (s : Switchboard α ρ) (g : Nat) (front : List Signal) (m : Json) (id : Nat)
    (matcher : Matcher α) : Prop where
  generation_eq : s.link.generation = g
  queued : ∃ rest, s.inbox = front ++ .message g m :: rest
  stands : s.correlator.Stands m id matcher

/-- The exchange `id` has ended at an instant, with the message or with a signal of `front`. -/
def Redeemed (s : Switchboard α ρ) (time g : Nat) (front : List Signal) (m : Json) (id : Nat)
    (matcher : Matcher α) : Prop :=
  ∃ o, s.correlator.outcome? id = some o ∧ o.time = time ∧
    ∃ x ∈ front ++ [.message g m], EndedBy g matcher x o.resolution

section Pledged

variable {s : Switchboard α ρ} {g id : Nat} {front : List Signal} {m : Json}
  {matcher : Matcher α}

/-- More is taken in behind the message, and more exchanges are begun. -/
theorem Pledged.grow {s' : Switchboard α ρ} (h : s.Pledged g front m id matcher)
    (hg : Gathers s s') (hlink : s'.link = s.link)
    (hentries : s.correlator.entries <+: s'.correlator.entries) :
    s'.Pledged g front m id matcher where
  generation_eq := hlink ▸ h.generation_eq
  queued := by
    obtain ⟨rest, hrest⟩ := h.queued
    obtain ⟨more, hmore⟩ := hg.inbox
    exact ⟨rest ++ more, by rw [← hmore, hrest, List.append_assoc, List.cons_append]⟩
  stands := h.stands.of_prefix hentries

/-- The message is among the signals. -/
theorem Pledged.mem (h : s.Pledged g front m id matcher) : .message g m ∈ s.inbox := by
  obtain ⟨rest, hrest⟩ := h.queued
  exact hrest ▸ List.mem_append_right _ List.mem_cons_self

/-- So they are about to be handled. -/
theorem Pledged.signals_mem (h : s.Pledged g front m id matcher) (ha : s.Alert) :
    .signals ∈ s.ready :=
  ha.attends fun hnil => absurd (hnil ▸ h.mem) List.not_mem_nil

/-- What has been redeemed stays so. -/
theorem Redeemed.after {time : Nat} (h : s.Redeemed time g front m id matcher) (ho : s.Orderly)
    (events : List (Event α ρ)) : (s.after events).Redeemed time g front m id matcher := by
  obtain ⟨o, hout, hby⟩ := h
  exact ⟨o, (ho.evolves events).outcome?_mono hout, hby⟩

/-- Only what is ready is done while something is. -/
theorem eq_next_of_ready {e : Event α ρ} (hp : s.Prompt e) (hbusy : s.ready ≠ []) :
    e = .next := by
  cases e with
  | act t => exact absurd hp.1 hbusy
  | next => rfl
  | tick instant => exact absurd hp.1.1 hbusy
  | collect => exact hp.elim
  | hush => exact hp.elim

/-- What happens next leaves the message and its exchange as they are, or ends the exchange. -/
theorem Pledged.next (h : s.Pledged g front m id matcher) (haccepts : matcher.accepts m)
    (ho : s.Orderly) (hin : s.InTune) (ha : s.Alert) :
    (s.occur .next).Pledged g front m id matcher ∨
      (s.occur .next).Redeemed s.now g front m id matcher := by
  have hsignals := h.signals_mem ha
  cases hr : s.ready with
  | nil => simp [hr] at hsignals
  | cons t rest =>
    have hpop : ({ s with ready := rest } : Switchboard α ρ).Pledged g front m id matcher :=
      { h with }
    rw [occur_next_of_ready hr]
    cases t with
    | signals =>
      obtain ⟨rfl, ⟨_, hqueued⟩, hstands⟩ := hpop
      exact .inr
        (outcome?_drain (s := { s with ready := rest }) 0 ho.sound hstands haccepts hqueued)
    | caller k =>
      have hconnected : s.Connected := (ha.carried g m h.mem).resolve_left (by simp [hr])
      rw [perform]
      cases hf : ({ s with ready := rest } : Switchboard α ρ).caller? k with
      | none => exact .inl hpop
      | some c =>
        obtain ⟨hc, rfl⟩ : c ∈ s.callers ∧ c.id = k := mem_of_caller?_eq_some hf
        have hstage := hin.attempt?_eq_none hconnected.1 hc
        have hg := (({ s with ready := rest } : Switchboard α ρ).turn_tend c).gathers
        exact .inl (hpop.grow hg (hg.link_eq hconnected.1)
          (entries_tend (s := { s with ready := rest }) hconnected ho.sound hstage))
    | announce i =>
      have hnews : ∀ k m, Signal.message k m ∉ [Signal.opened i] := by simp
      have heq :=
        (({ s with ready := rest } : Switchboard α ρ).aside_hear [.opened i]).correlator_eq
      exact .inl (hpop.grow (gathers_hear _ (.inr hnews)) (link_hear _ _)
        ⟨[], (List.append_nil _).trans (congrArg Correlator.entries heq.symm)⟩)
    | watch i =>
      exact .inl (hpop.grow (gathers_getOn _ i) (link_getOn _ i)
        ⟨[], (List.append_nil _).trans
          (congrArg Correlator.entries (correlator_getOn _ i).symm)⟩)
    | expire i =>
      exact absurd (ha.inbox_eq_nil_of_expire (hr ▸ List.mem_cons_self) ▸ h.mem)
        List.not_mem_nil

end Pledged

/-! ### The events of a run -/

section Timely

variable {s : Switchboard α ρ} (ho : s.Orderly) {events : List (Event α ρ)}
  (ht : s.Timely events)
include ho ht

/-- The alert is kept up in a run. -/
theorem Alert.after (h : s.Alert) (hown : ∀ e ∈ events, e.Own) : (s.after events).Alert := by
  induction events generalizing s with
  | nil => exact h
  | cons e rest ih =>
    obtain ⟨he, hrest⟩ := List.forall_mem_cons.mp hown
    exact ih (ho.after [e]) ht.2 (h.occur ho ht.1 he) hrest

/-- And the connection in tune. -/
theorem InTune.after (h : s.InTune) (hown : ∀ e ∈ events, e.Own) : (s.after events).InTune := by
  induction events generalizing s with
  | nil => exact h
  | cons e rest ih =>
    obtain ⟨he, hrest⟩ := List.forall_mem_cons.mp hown
    exact ih (ho.after [e]) ht.2 (h.occur ho ht.1 he) hrest

end Timely

/-! ### Answers are in time -/

/-- A moment before the next event, or in the middle of it: if that is that the signals are
handled, the first `k` of them have been. -/
def midst (s : Switchboard α ρ) (k : Nat) : Switchboard α ρ :=
  match s.ready with
  | .signals :: rest => ({ s with ready := rest } : Switchboard α ρ).handling k
  | _ => s

/-- The callers are left alone by that, and no exchange times out. -/
theorem passes_midst {s : Switchboard α ρ} (hs : s.correlator.Sound) (k : Nat) :
    Passes [] s (s.midst k) := by
  rw [midst]
  split
  · next rest hr =>
    exact (passes_pop hr fun _ _ => nofun).trans
      (passes_handling (s := { s with ready := rest }) k hs)
  · exact .refl s

end VenueLink.Switchboard

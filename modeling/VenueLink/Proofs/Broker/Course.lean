import VenueLink.Proofs.Broker.Placement
import VenueLink.Proofs.Switchboard.Answering

/-!
# The course of a broker

Whatever is done to a broker, one deed after the other, is a course. The events of a course are
its history; with each call, and with each reply that is given at once, a caller comes, so that
the caller of an id is known from the deeds. A service does nothing to its broker but such
deeds.

## Main results

* `after_history_course`: the switchboard of a course is what its history leads to.
* `booked_course`: at any time of a course there is a book of the exchanges so far, in which all
  that acknowledges orders belongs to calls for placements.
* `details_course`: a store that accepts writes has all orders that were acknowledged.
* `course_run`: the run of a service is a course of its broker.
-/

namespace VenueLink

open Exchange Exchange.Plan Switchboard

variable {ρ : Type}

namespace Broker

/-- What can be done to a broker. -/
inductive Deed (ρ : Type) where
  | call (label : String) (c : Call) (tell : CallResult → ρ)
  | reply (label : String) (r : ρ)
  /-- The session answers differently from now on. -/
  | session (script : SessionScript)
  /-- The stores fail from now on, or no longer. -/
  | stores (failure : Option StorageError)
  | upsert (result : DailyResult)
  | wire (c : Wire.Control)
  | advance (duration : Nat)

/-- Do something to a broker. -/
def follow (b : Broker ρ) : Deed ρ → Broker ρ
  | .call label c tell => b.call label c tell
  | .reply label r => b.reply label r
  | .session script => { b with session := script }
  | .stores failure => { b with storeFailure := failure }
  | .upsert result => (b.upsertResult result).1
  | .wire c => b.tick (.wire c)
  | .advance duration => b.tick (.advance duration)

/-- Do several things to a broker. -/
def course (b : Broker ρ) (deeds : List (Deed ρ)) : Broker ρ :=
  deeds.foldl follow b

/-- What comes of deeds one part after the other. -/
theorem course_append (b : Broker ρ) (xs ys : List (Deed ρ)) :
    b.course (xs ++ ys) = (b.course xs).course ys :=
  List.foldl_append

/-- A deed keeps the broker faithful. -/
theorem Faithful.follow {cap : Nat} {b : Broker ρ} (h : b.Faithful cap) (d : Deed ρ) :
    (b.follow d).Faithful cap := by
  cases d with
  | call label c tell => exact h.call label c tell
  | reply label r => exact h.reply label r
  | session script => exact ⟨h.board, h.orders⟩
  | stores failure => exact ⟨h.board, h.orders⟩
  | upsert result => exact h.upsertResult result
  | wire c => exact h.tick _
  | advance duration => exact h.tick _

/-- So do any deeds. -/
theorem Faithful.course {cap : Nat} {b : Broker ρ} (h : b.Faithful cap)
    (deeds : List (Deed ρ)) : (b.course deeds).Faithful cap := by
  induction deeds generalizing b with
  | nil => exact h
  | cons d rest ih => exact ih (h.follow d)

/-- A deed does not change the configuration. -/
theorem config_follow (b : Broker ρ) (d : Deed ρ) : (b.follow d).config = b.config := by
  have htick : ∀ (b : Broker ρ) (t : Switchboard.Step Answer ρ), (b.tick t).config = b.config :=
    fun b t => config_foldl_save _ _
  cases d with
  | call label c tell =>
    obtain ⟨session, heq⟩ := b.prepare_eq c
    have hprepare : (b.prepare c).1.config = b.config := by rw [heq]
    exact (htick (b.prepare c).1 _).trans hprepare
  | upsert result =>
    rw [follow, upsertResult, withStores]
    cases b.storeFailure <;> rfl
  | session script => rfl
  | stores failure => rfl
  | _ => exact htick _ _

/-- Nothing that is done to a broker changes its settings. -/
theorem config_course (b : Broker ρ) (deeds : List (Deed ρ)) :
    (b.course deeds).config = b.config := by
  induction deeds generalizing b with
  | nil => rfl
  | cons d rest ih => exact (ih _).trans (b.config_follow d)

/-! ### Events -/

/-- The events of a deed. Before a call is launched the handshake is brought in step. -/
def trace (b : Broker ρ) : Deed ρ → List (Event Answer ρ)
  | .call label c tell =>
    let s := (b.prepare c).1.board
    .act (.setHandshake s.link.handshake) ::
      s.trace (.launch label _ ((b.prepare c).2.2.map tell))
  | .reply label r => b.board.trace (.launch label 0 (.report r))
  | .wire c => b.board.trace (.wire c)
  | .advance duration => b.board.trace (.advance duration)
  | _ => []

/-- The events of several deeds. -/
def history (b : Broker ρ) : List (Deed ρ) → List (Event Answer ρ)
  | [] => []
  | d :: rest => b.trace d ++ (b.follow d).history rest

/-- The events of deeds, one part after the other. -/
theorem history_append (b : Broker ρ) (xs ys : List (Deed ρ)) :
    b.history (xs ++ ys) = b.history xs ++ (b.course xs).history ys := by
  induction xs generalizing b with
  | nil => rfl
  | cons d rest ih =>
    rw [List.cons_append, history, ih, history, List.append_assoc]
    rfl

/-- A tick is a step of the switchboard. -/
theorem board_tick (b : Broker ρ) (t : Switchboard.Step Answer ρ) :
    (b.tick t).board = (b.board.step t).1 := by
  rw [tick, board_foldl_save]

/-- The events of a deed lead to where the deed does. -/
theorem after_trace_follow {b : Broker ρ} (ho : b.board.Orderly) (d : Deed ρ) :
    b.board.after (b.trace d) = (b.follow d).board := by
  cases d with
  | call label c tell =>
    have ho' : (b.prepare c).1.board.Orderly := (b.reaches_prepare c).1.orderly ho
    have hboard : (b.follow (.call label c tell)).board =
        ((b.prepare c).1.board.step (.launch label _ ((b.prepare c).2.2.map tell))).1 :=
      board_tick _ _
    rw [hboard, trace, after_cons, ← b.prepare_board c, after_trace ho']
  | reply label r => exact (after_trace ho _).trans (b.board_tick _).symm
  | session script => rfl
  | stores failure => rfl
  | upsert result =>
    rw [follow, upsertResult, withStores]
    cases b.storeFailure <;> rfl
  | wire c => exact (after_trace ho _).trans (b.board_tick _).symm
  | advance duration => exact (after_trace ho _).trans (b.board_tick _).symm

/-- A deed keeps order. -/
theorem orderly_follow {b : Broker ρ} (ho : b.board.Orderly) (d : Deed ρ) :
    (b.follow d).board.Orderly :=
  after_trace_follow ho d ▸ ho.after _

/-- The switchboard of a course is what its history leads to. -/
theorem after_history_course {b : Broker ρ} (ho : b.board.Orderly) (deeds : List (Deed ρ)) :
    b.board.after (b.history deeds) = (b.course deeds).board := by
  induction deeds generalizing b with
  | nil => rfl
  | cons d rest ih =>
    rw [history, after_append, after_trace_follow ho]
    exact ih (orderly_follow ho d)

/-! ### Who comes -/

/-- A caller comes with a deed. -/
def Deed.brings : Deed ρ → Bool
  | .call _ _ _ => true
  | .reply _ _ => true
  | _ => false

/-- The deeds with which callers come; the place in the list is the id of the caller. -/
def visits (deeds : List (Deed ρ)) : List (Deed ρ) :=
  deeds.filter Deed.brings

/-- Nobody comes while things happen. -/
theorem newcomers_happenings (n : Nat) (s : Switchboard Answer ρ) :
    ∀ e ∈ happenings n s, e.newcomers = 0 :=
  forall_happenings (p := fun e => e.newcomers = 0) rfl n s

/-- The visits of deeds, one part after the other. -/
theorem visits_append (xs ys : List (Deed ρ)) : visits (xs ++ ys) = visits xs ++ visits ys :=
  List.filter_append xs ys

/-- Nobody comes in events that bring nobody, and so everybody heeds anything. -/
theorem heedful_of_newcomers {q : Habit Answer ρ} {s : Switchboard Answer ρ} (ho : s.Orderly)
    {events : List (Event Answer ρ)} (hnone : ∀ e ∈ events, e.newcomers = 0) :
    (s.after events).next = s.next ∧ s.Heedful q events := by
  induction events generalizing s with
  | nil => exact ⟨rfl, trivial⟩
  | cons e rest ih =>
    have he := hnone e List.mem_cons_self
    obtain ⟨hnext, hrest⟩ :=
      ih (ho.after [e]) fun e' he' => hnone e' (List.mem_cons_of_mem e he')
    refine ⟨hnext.trans ((next_occur ho e).trans (by rw [he, Nat.add_zero])), ?_, hrest⟩
    cases e with
    | act step =>
      cases step with
      | launch label n plan => cases he
      | listen label m timeout tell => cases he
      | _ => trivial
    | _ => trivial

/-- With the launch of a plan one caller comes. -/
theorem heedful_launch {q : Habit Answer ρ} {s : Switchboard Answer ρ} (ho : s.Orderly)
    (label : String) {n : Nat} {plan : Plan Answer ρ n} (hplan : plan.Always (q s.next)) :
    (s.step (.launch label n plan)).1.next = s.next + 1 ∧
      s.Heedful q (s.trace (.launch label n plan)) := by
  have hevents : s.trace (.launch label n plan) = .act (.launch label n plan) ::
      happenings (s.act (.launch label n plan)).1.effort (s.act (.launch label n plan)).1 := rfl
  obtain ⟨hnext, hrest⟩ := heedful_of_newcomers (q := q)
    (ho.after [.act (.launch label n plan)])
    (newcomers_happenings (s.act (.launch label n plan)).1.effort
      (s.act (.launch label n plan)).1)
  rw [← after_trace ho, hevents, after_cons]
  exact ⟨hnext.trans (next_occur ho (.act (.launch label n plan))), hplan, hrest⟩

/-! ### What callers run -/

/-- What is made of the answer does not matter to what a plan always does. -/
theorem always_map {q : Spec Answer → (n : Nat) → (Resolution Answer → Plan Answer ρ n) → Prop}
    {f : CallResult → ρ} {n : Nat} {plan : Plan Answer CallResult n}
    (h : plan.Always fun spec n next => q spec n fun r => (next r).map f) :
    (plan.map f).Always q := by
  induction plan with
  | report r => trivial
  | exchange spec next ih => exact ⟨h.1, fun r => ih r (h.2 r)⟩

/-- An exchange that places no order: its request is not for that, and it acknowledges nothing.
-/
structure Silent (spec : Spec Answer) : Prop where
  request_ne : ∀ p : Order.Placement, spec.request ≠ p.frame.toJson
  keeps : ∀ raw, (spec.matcher.answer raw).kept? = none

/-- The name of a request can be read off the frame that carries it. -/
theorem inquiryName?_eq (frame : Frame) : frame.inquiryName? =
    ((frame.toJson.get? "msg").bind (·.get? "name")).bind Json.string? := by
  cases frame <;> rfl

/-- A frame of another name than that of an order is no order. -/
theorem silent_of_name_ne {frame : Frame} {name : String}
    (hname : frame.inquiryName? = some name) (hne : name ≠ "place-order-temp")
    {m : Matcher Answer} {limit : Limit} (hkeeps : ∀ raw, (m.answer raw).kept? = none) :
    Silent (Call.spec frame m limit) where
  request_ne p heq := by
    have hjson : frame.toJson = p.frame.toJson := heq
    rw [inquiryName?_eq, hjson, ← inquiryName?_eq] at hname
    exact hne (Option.some.inj hname).symm
  keeps := hkeeps

/-- The exchange of an order, with nothing but the report of what it comes to after it. -/
def Orders (request : Order.Request) (tell : CallResult → ρ) (spec : Spec Answer) (n : Nat)
    (next : Resolution Answer → Plan Answer ρ n) : Prop :=
  (∃ limits, Call.Places limits request spec) ∧
    next = fun r => .report (tell (.ok (.placement (Call.placementReport r))))

/-- An exchange that acknowledges orders belongs to a call for a placement. -/
def habit (visits : List (Deed ρ)) : Habit Answer ρ := fun k spec n next =>
  Silent spec ∨ ∃ label request tell,
    visits[k]? = some (.call label (.placement request) tell) ∧ Orders request tell spec n next

section Plans

variable {q : Spec Answer → (n : Nat) → (Resolution Answer → Plan Answer CallResult n) → Prop}
  (hq : ∀ spec n next, Silent spec → q spec n next) (limits : Limits)
include hq

/-- A request for balances does what `q` allows, if asking for them is allowed. -/
theorem always_balances (kinds : List Int) : (Call.balancesPlan limits kinds).Always q :=
  ⟨hq _ _ _ (silent_of_name_ne rfl (by simp) fun _ => rfl), fun _ => trivial⟩

/-- So does the search of an instrument through its families. -/
theorem always_search (ticker : String) (families : List Instrument.Family) (seen : List Json) :
    (Call.searchPlan limits ticker families seen).Always q := by
  induction families generalizing seen with
  | nil => trivial
  | cons f rest ih =>
    refine ⟨hq _ _ _ (silent_of_name_ne rfl (by simp) fun _ => rfl), fun r => ?_⟩
    dsimp only
    cases Call.foundIn r with
    | some id => trivial
    | none => exact ih _

/-- And a question for the state of an order. -/
theorem always_status (orderId : Int) : (Call.statusPlan limits orderId).Always q :=
  ⟨hq _ _ _ (silent_of_name_ne rfl (by simp) fun _ => rfl), fun _ => trivial⟩

/-- And a placement. -/
theorem always_placement {request : Order.Request}
    (hplace : ∀ spec n next, Orders request id spec n next → q spec n next) (profile : Profile)
    (side : Order.Side) : (Call.placementPlan limits profile request side).2.Always q := by
  have hlast : ∀ instrumentId,
      (Call.placePlan limits profile request side instrumentId).Always q := fun instrumentId =>
    ⟨hplace _ _ _ ⟨⟨limits, profile, side, instrumentId, rfl⟩, rfl⟩, fun _ => trivial⟩
  rw [Call.placementPlan]
  cases request.tickerToResolve with
  | none => exact hlast _
  | some ticker =>
    refine ⟨hq _ _ _ (silent_of_name_ne rfl (by simp) fun _ => rfl), fun r => ?_⟩
    dsimp only
    cases Call.foundIn r with
    | some id => exact hlast id
    | none => trivial

/-- A call runs exchanges that acknowledge nothing, unless it is for a placement. -/
theorem always_prepare (b : Broker ρ) (c : Call)
    (hplace : ∀ request, c = .placement request →
      ∀ spec n next, Orders request id spec n next → q spec n next) :
    (b.prepare c).2.2.Always q := by
  cases c with
  | login credentials =>
    rw [prepare]
    dsimp only
    cases (b.session.logIn credentials).2 <;> trivial
  | balances kinds =>
    rw [prepare]
    cases b.session.refusal with
    | none => exact always_balances hq _ kinds
    | some e => trivial
  | instrument search ticker =>
    rcases eq_or_ne (Text.trim ticker) "" with hblank | hblank
    · have heq : b.prepare (.instrument search ticker) = (b, _) := if_pos hblank
      rw [heq]
      trivial
    · have heq : b.prepare (.instrument search ticker) = (b.syncHandshake, _) := if_neg hblank
      rw [heq]
      exact always_search hq _ _ _ _
  | placement request =>
    rcases b.prepare_placement request with ⟨b', e, heq⟩ | ⟨b', profile, side, heq⟩
    · rw [heq]
      trivial
    · have hplan := always_placement hq b.config.limits (hplace request rfl) profile side
      rw [heq]
      exact hplan
  | status orderId =>
    by_cases hle : orderId ≤ 0
    · have heq : b.prepare (.status orderId) = (b, _) := if_pos hle
      rw [heq]
      trivial
    · have heq : b.prepare (.status orderId) = (b.syncHandshake, _) := if_neg hle
      rw [heq]
      exact always_status hq _ orderId

end Plans

/-- The caller of a deed runs what belongs to the deed. -/
theorem heedful_trace {b : Broker ρ} (ho : b.board.Orderly) (visits : List (Deed ρ))
    {d : Deed ρ} (hd : d.brings → visits[b.board.next]? = some d) :
    (b.follow d).board.next = b.board.next + (if d.brings then 1 else 0) ∧
      b.board.Heedful (habit visits) (b.trace d) := by
  cases d with
  | call label c tell =>
    have ho' : (b.prepare c).1.board.Orderly := (b.reaches_prepare c).1.orderly ho
    have hnext : (b.prepare c).1.board.next = b.board.next := by
      rw [b.prepare_board c]
      exact next_occur ho _
    have hplan :
        ((b.prepare c).2.2.map tell).Always (habit visits (b.prepare c).1.board.next) := by
      refine always_map (always_prepare (fun _ _ _ hsilent => .inl hsilent) b c ?_)
      rintro request rfl spec n _ ⟨hplaces, rfl⟩
      exact .inr ⟨label, request, tell, hnext ▸ hd rfl, hplaces, rfl⟩
    obtain ⟨hnext', hheeds⟩ := heedful_launch ho' label hplan
    refine ⟨?_, trivial, ?_⟩
    · exact (congrArg Switchboard.next (board_tick _ _)).trans
        (hnext'.trans (by rw [hnext]; rfl))
    · rw [← b.prepare_board c]
      exact hheeds
  | reply label r =>
    have hplan : (.report r : Plan Answer ρ 0).Always (habit visits b.board.next) := trivial
    obtain ⟨hnext, hheeds⟩ := heedful_launch ho label hplan
    exact ⟨(congrArg Switchboard.next (board_tick _ _)).trans hnext, hheeds⟩
  | session script => exact ⟨rfl, trivial⟩
  | stores failure => exact ⟨rfl, trivial⟩
  | upsert result =>
    refine ⟨?_, trivial⟩
    rw [← after_trace_follow ho]
    rfl
  | wire c =>
    have hnone : ∀ e ∈ b.trace (.wire c), e.newcomers = 0 :=
      forall_trace (p := fun e => e.newcomers = 0) rfl (fun _ => rfl) (fun _ => rfl) b.board
    exact after_trace_follow ho (.wire c) ▸ heedful_of_newcomers ho hnone
  | advance duration =>
    have hnone : ∀ e ∈ b.trace (.advance duration), e.newcomers = 0 :=
      forall_trace (p := fun e => e.newcomers = 0) rfl (fun _ => rfl)
        (fun h => absurd rfl (h duration)) b.board
    exact after_trace_follow ho (.advance duration) ▸ heedful_of_newcomers ho hnone

/-- Every visit is given a number. -/
theorem next_course {b : Broker ρ} (ho : b.board.Orderly) (deeds : List (Deed ρ)) :
    (b.course deeds).board.next = b.board.next + (visits deeds).length := by
  induction deeds generalizing b with
  | nil => rfl
  | cons d rest ih =>
    have hfirst := (heedful_trace ho (List.replicate (b.board.next + 1) d) (d := d)
      fun _ => by simp).1
    refine (ih (orderly_follow ho d)).trans ?_
    rw [hfirst, visits, visits, List.filter_cons]
    cases hbrings : d.brings <;> simp [Nat.add_assoc, Nat.add_comm 1]

/-- The caller `k` of a course comes with a deed. -/
def Brought (b : Broker ρ) (deeds : List (Deed ρ)) (k : Nat) (d : Deed ρ) : Prop :=
  ∃ xs ys, deeds = xs ++ d :: ys ∧ (b.course xs).board.next = k

/-- The deed with which a caller comes is at its place among those with which callers come. -/
theorem brought_iff {b : Broker ρ} (ho : b.board.Orderly) (hnext : b.board.next = 0)
    {deeds : List (Deed ρ)} {k : Nat} {d : Deed ρ} (hd : d.brings) :
    b.Brought deeds k d ↔ (visits deeds)[k]? = some d := by
  constructor
  · rintro ⟨xs, ys, rfl, rfl⟩
    rw [next_course ho, hnext, Nat.zero_add, visits_append, visits, visits,
      List.getElem?_append_right (Nat.le_refl _), Nat.sub_self, List.filter_cons_of_pos hd,
      List.getElem?_cons_zero]
  · intro hvisit
    obtain ⟨hlt, hget⟩ := List.getElem?_eq_some_iff.mp hvisit
    have hsplit : visits deeds = (visits deeds).take k ++ d :: (visits deeds).drop (k + 1) := by
      rw [← hget, List.cons_getElem_drop_succ, List.take_append_drop]
    obtain ⟨xs, rest, rfl, hxs, hrest⟩ := List.filter_eq_append_iff.mp hsplit
    obtain ⟨others, ys, rfl, hnone, -, -⟩ := List.filter_eq_cons_iff.mp hrest
    refine ⟨xs ++ others, ys, by simp, ?_⟩
    have hothers : visits others = [] := List.filter_eq_nil_iff.mpr hnone
    rw [next_course ho, hnext, Nat.zero_add, visits_append, hothers, List.append_nil]
    rw [visits, hxs, List.length_take, Nat.min_eq_left (Nat.le_of_lt hlt)]

/-- The caller of a call is launched in the history of a course, on what was prepared for it. -/
theorem Brought.launch {b : Broker ρ} (ho : b.board.Orderly) {deeds : List (Deed ρ)} {k : Nat}
    {label : String} {c : Call} {tell : CallResult → ρ}
    (h : b.Brought deeds k (.call label c tell)) :
    ∃ before later, ∃ b' : Broker ρ, b.history deeds =
      before ++ .act (.launch label _ ((b'.prepare c).2.2.map tell)) :: later ∧
      (b.board.after before).next = k ∧ b'.config = b.config := by
  obtain ⟨xs, ys, rfl, rfl⟩ := h
  have ho' : (b.course xs).board.Orderly := after_history_course ho xs ▸ ho.after _
  let set : Event Answer ρ :=
    .act (.setHandshake ((b.course xs).prepare c).1.board.link.handshake)
  obtain ⟨later, heq⟩ : ∃ later, (b.course xs).history (.call label c tell :: ys) =
      set :: .act (.launch label _ (((b.course xs).prepare c).2.2.map tell)) :: later :=
    ⟨_, rfl⟩
  refine ⟨b.history xs ++ [set], later, b.course xs, ?_, ?_, b.config_course xs⟩
  · rw [history_append, heq, List.append_assoc]
    rfl
  · rw [after_append, after_history_course ho]
    exact next_occur ho' set

/-- The callers of a course run what belongs to the deeds with which they came. -/
theorem heedful_history {b : Broker ρ} (ho : b.board.Orderly) (before deeds : List (Deed ρ))
    (hnext : b.board.next = (visits before).length) :
    b.board.Heedful (habit (visits (before ++ deeds))) (b.history deeds) := by
  induction deeds generalizing b before with
  | nil => trivial
  | cons d rest ih =>
    have hsplit : before ++ d :: rest = (before ++ [d]) ++ rest := by simp
    have hd : d.brings →
        (visits (before ++ d :: rest))[b.board.next]? = some d := fun hbrings => by
      rw [visits, List.filter_append, List.filter_cons_of_pos hbrings, hnext, ← visits,
        List.getElem?_append_right (Nat.le_refl _), Nat.sub_self, List.getElem?_cons_zero]
    obtain ⟨hnext', hheeds⟩ := heedful_trace ho _ hd
    refine heedful_append.mpr ⟨hheeds, ?_⟩
    rw [after_trace_follow ho, hsplit]
    refine ih (orderly_follow ho d) _ (hnext'.trans ?_)
    rw [hnext, visits, visits, List.filter_append, List.length_append]
    cases hbrings : d.brings <;> simp [hbrings]

/-! ### A course from the start -/

section Start

variable (config : VenueConfig) (session : SessionScript) (responders : List Responder)

/-- At the start everything is in order. -/
theorem orderly_board_start : (start config session responders : Broker ρ).board.Orderly :=
  (faithful_start config session responders).orderly

/-- At the start there is no exchange to be minded. -/
theorem minded_board_start : (start config session responders : Broker ρ).board.Minded := by
  obtain ⟨events, heq⟩ := (faithful_start (ρ := ρ) config session responders).board
  exact heq ▸ (minded_start _ _).after (orderly_start _ _) events

/-- At the start the book is empty. -/
theorem booked_start (q : Habit Answer ρ) :
    Booked q [] (start config session responders : Broker ρ).board :=
  ⟨rfl, fun _ hc => absurd hc List.not_mem_nil, fun _ hx => absurd hx List.not_mem_nil⟩

/-- Everybody who is launched in a course does as its visit says. -/
theorem heedful_course {deeds : List (Deed ρ)} {before later : List (Event Answer ρ)}
    (heq : (start config session responders).history deeds = before ++ later) :
    (start config session responders).board.Heedful (habit (visits deeds)) before :=
  (heedful_append.mp
    (heq ▸ heedful_history (orderly_board_start config session responders) [] deeds rfl)).1

/-- At any time of a course the exchanges that have been registered so far are its book. -/
theorem booked_history {deeds : List (Deed ρ)} {before later : List (Event Answer ρ)}
    (heq : (start config session responders).history deeds = before ++ later) :
    Booked (habit (visits deeds)) ((start config session responders).board.enrolledOver before)
      ((start config session responders).board.after before) :=
  (booked_start config session responders _).after
    (orderly_board_start config session responders)
    (heedful_course config session responders heq)

/-- At any time of a course there is a book of the exchanges so far, to which more are added. -/
theorem booked_course {deeds : List (Deed ρ)} {before later : List (Event Answer ρ)}
    (heq : (start config session responders).history deeds = before ++ later) :
    ∃ book, Booked (habit (visits deeds)) book
      ((start config session responders).board.after before) ∧
      ∃ more, Booked (habit (visits deeds)) (book ++ more)
        ((start config session responders).board.after (before ++ later)) := by
  have hall := booked_history config session responders (heq.trans (List.append_nil _).symm)
  rw [enrolledOver_append] at hall
  exact ⟨_, booked_history config session responders heq, _, hall⟩

end Start

/-! ### What is saved -/

/-- The store accepts writes and has all orders that were acknowledged. -/
structure Recorded (b : Broker ρ) : Prop where
  accepts : b.storeFailure = none
  details_eq : b.orders.records.map Order.Record.details = b.board.kept

/-- At the start there is nothing to record. -/
theorem recorded_start (config : VenueConfig) (session : SessionScript)
    (responders : List Responder) : (start config session responders : Broker ρ).Recorded :=
  ⟨rfl, rfl⟩

/-- Records that are saved do not mend the store. -/
theorem storeFailure_foldl_save (kept : List Order.Details) (b : Broker ρ) :
    (kept.foldl save b).storeFailure = b.storeFailure := by
  induction kept generalizing b with
  | nil => rfl
  | cons d rest ih =>
    rw [List.foldl_cons, ih, save]
    cases hf : b.storeFailure <;> simp [hf]

/-- A call that is prepared leaves the records. -/
theorem Recorded.prepare {b : Broker ρ} (h : b.Recorded) (c : Call) :
    (b.prepare c).1.Recorded := by
  obtain ⟨session, heq⟩ := b.prepare_eq c
  have hkept : (b.prepare c).1.board.kept = b.board.kept := by
    rw [b.prepare_board c]
    rfl
  refine ⟨by rw [heq]; exact h.accepts, ?_⟩
  rw [hkept, (b.reaches_prepare c).2, h.details_eq]

/-- A tick records the orders that it brings. -/
theorem Recorded.tick {b : Broker ρ} (ho : b.board.Orderly) (h : b.Recorded)
    (t : Switchboard.Step Answer ρ) : (b.tick t).Recorded := by
  refine ⟨(storeFailure_foldl_save _ _).trans h.accepts, ?_⟩
  rw [Broker.tick, details_foldl_save, board_foldl_save, kept_mono ho (reaches_step ho t),
    h.details_eq, h.accepts]
  rfl

/-- So does a deed, if the store does not fail. -/
theorem Recorded.follow {b : Broker ρ} (ho : b.board.Orderly) (h : b.Recorded) {d : Deed ρ}
    (hd : ∀ failure, d ≠ .stores (some failure)) : (b.follow d).Recorded := by
  cases d with
  | call label c tell => exact (h.prepare c).tick ((b.reaches_prepare c).1.orderly ho) _
  | reply label r => exact h.tick ho _
  | session script => exact ⟨h.accepts, h.details_eq⟩
  | stores failure =>
    cases failure with
    | none => exact ⟨rfl, h.details_eq⟩
    | some e => exact absurd rfl (hd e)
  | upsert result =>
    have heq : b.follow (.upsert result) = { b with results := b.results.upsert result } := by
      rw [Broker.follow, upsertResult, withStores, h.accepts]
    rw [heq]
    exact ⟨h.accepts, h.details_eq⟩
  | wire c => exact h.tick ho _
  | advance duration => exact h.tick ho _

/-- A store that accepts writes has all orders that were acknowledged. -/
theorem details_course {b : Broker ρ} (ho : b.board.Orderly) (h : b.Recorded)
    {deeds : List (Deed ρ)} (hstores : ∀ failure, .stores (some failure) ∉ deeds) :
    (b.course deeds).Recorded := by
  induction deeds generalizing b with
  | nil => exact h
  | cons d rest ih =>
    refine ih (orderly_follow ho d) (h.follow ho fun failure heq => ?_)
      fun failure hmem => hstores failure (List.mem_cons_of_mem d hmem)
    exact hstores failure (heq ▸ List.mem_cons_self)

end Broker

namespace Service

open Broker

/-- A step of a service is a course of its broker, in which the stores fail only if the step
makes them fail. -/
theorem course_step (s : Service) (t : Step) : ∃ deeds, s.step t = s.course deeds ∧
    ∀ failure, .stores (some failure) ∈ deeds → t = .stores (some failure) := by
  cases t with
  | call label c => exact ⟨[.call label c .result], rfl, by simp⟩
  | http label r =>
    rw [step, serve]
    dsimp only
    cases r.action with
    | call c => exact ⟨[.call label c _], rfl, by simp⟩
    | upsertResult result => exact ⟨[.upsert result, .reply label _], rfl, by simp⟩
    | _ => exact ⟨[.reply label _], rfl, by simp⟩
  | session script => exact ⟨[.session script], rfl, by simp⟩
  | stores failure =>
    refine ⟨[.stores failure], rfl, fun e he => ?_⟩
    cases List.mem_singleton.mp he
    rfl
  | wire c => exact ⟨[.wire c], rfl, by simp⟩
  | advance duration => exact ⟨[.advance duration], rfl, by simp⟩

/-- The run of a service is a course of its broker. -/
theorem course_run (s : Service) (steps : List Step) : ∃ deeds, s.run steps = s.course deeds ∧
    ∀ failure, .stores (some failure) ∈ deeds → .stores (some failure) ∈ steps := by
  induction steps generalizing s with
  | nil => exact ⟨[], rfl, fun _ he => absurd he List.not_mem_nil⟩
  | cons t rest ih =>
    obtain ⟨first, heq, hfirst⟩ := s.course_step t
    obtain ⟨more, heq', hmore⟩ := ih (s.step t)
    refine ⟨first ++ more, ?_, fun failure hmem => ?_⟩
    · rw [course_append, ← heq]
      exact heq'
    · rcases List.mem_append.mp hmem with h | h
      · exact hfirst failure h ▸ List.mem_cons_self
      · exact List.mem_cons_of_mem t (hmore failure h)

end Service

end VenueLink

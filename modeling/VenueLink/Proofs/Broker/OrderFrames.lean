import VenueLink.Proofs.Broker.Lookup
import VenueLink.Proofs.Instrument.Search
import VenueLink.Proofs.Switchboard.Greetings
import VenueLink.Proofs.Venue.Frames

/-!
# The instrument of an order

An order goes to the venue with the id of an instrument. Either the request has named it, and
then it is what is left of the name without the blanks around it; or it was looked up for the
ticker of the request, and then an exchange of the same caller has found it in a message.
Neither is ever empty: a request that names nothing looks up a ticker, and no message has the
empty id. All else that goes over the wire is a request of another name, or the handshake of the
link, so that no frame of an order has no instrument.

## Main results

* `Trod.along_of_line`: a line of a caller is an exchange that its plan has come to.
* `heeded_of_enrolledOver`: whatever is registered is as it should be for its caller.
* `greets_course`: what goes over the wire and is no request is the handshake with a token.
* `Broker.exists_instrumentOf`: where the instrument of an order that was sent comes from.
* `instrument_ids_are_found`: what an id is looked up as, and that none is empty.
-/

namespace VenueLink

open Exchange Exchange.Plan Switchboard

variable {α ρ : Type}

/-- A plan that has gone over some legs has come to each of them. -/
theorem Exchange.Plan.Along.of_append {m n : Nat} {p : Plan α ρ m} {q : Plan α ρ n}
    {before after : List (Leg α)} {l : Leg α} (h : p.Along (before ++ l :: after) q) :
    ∃ k, ∃ next : Resolution α → Plan α ρ k, p.Along before (.exchange l.spec next) := by
  induction before generalizing m with
  | nil =>
    cases h with
    | past _ => exact ⟨_, _, .here _⟩
  | cons first rest ih =>
    cases h with
    | past hrest =>
      obtain ⟨k, next, hnext⟩ := ih hrest
      exact ⟨k, next, .past hnext⟩

namespace Switchboard

/-- A line of a caller is an exchange that its plan has come to, after others that have ended.
-/
theorem Trod.along_of_line {told : ρ → Prop} {s : Switchboard α ρ} {book : List (Nat × Spec α)}
    {k n : Nat} {plan : Plan α ρ n} (h : Trod told s book k plan) {ex : Nat} {spec : Spec α}
    (hline : (ex, spec) ∈ linesOf k 0 book) :
    ∃ legs m, ∃ next : Resolution α → Plan α ρ m, plan.Along legs (.exchange spec next) ∧
      ∀ l ∈ legs, s.HasRun l ∧ l.line ∈ linesOf k 0 book := by
  obtain ⟨legs, hrun, hwhere⟩ := h
  have hearlier : (∀ l ∈ legs, l.line ∈ linesOf k 0 book) → (ex, spec) ∈ legs.map Leg.line →
      ∀ {m : Nat} {q : Plan α ρ m}, plan.Along legs q →
      ∃ legs m, ∃ next : Resolution α → Plan α ρ m, plan.Along legs (.exchange spec next) ∧
        ∀ l ∈ legs, s.HasRun l ∧ l.line ∈ linesOf k 0 book := by
    intro hmem hleg m q halong
    obtain ⟨l, hl, hl'⟩ := List.mem_map.mp hleg
    obtain ⟨-, rfl⟩ := Prod.mk.inj hl'
    obtain ⟨before, after, rfl⟩ := List.append_of_mem hl
    obtain ⟨m, next, hnext⟩ := halong.of_append
    exact ⟨before, m, next, hnext, fun l hl =>
      ⟨hrun l (List.mem_append_left _ hl), hmem l (List.mem_append_left _ hl)⟩⟩
  rcases hwhere with ⟨c, -, -, ex', spec', m, next, -, halong, hlines⟩ |
    ⟨-, r, m, -, halong, hlines⟩
  · have hmem : ∀ l ∈ legs, l.line ∈ linesOf k 0 book := fun l hl =>
      hlines ▸ List.mem_append_left _ (List.mem_map_of_mem hl)
    rw [hlines] at hline
    rcases List.mem_append.mp hline with hleg | hlast
    · exact hearlier hmem hleg halong
    · obtain ⟨-, rfl⟩ := Prod.mk.inj (List.mem_singleton.mp hlast)
      exact ⟨legs, m, next, halong, fun l hl => ⟨hrun l hl, hmem l hl⟩⟩
  · exact hearlier (fun l hl => hlines ▸ List.mem_map_of_mem hl) (hlines ▸ hline) halong

/-! ### What is registered -/

section Heeded

variable {s : Switchboard α ρ} {k : Nat} {spec : Spec α}

/-- What a plan registers is as the plan always is. -/
theorem heeded_of_enrolledBy {p : Spec α → (n : Nat) → (Resolution α → Plan α ρ n) → Prop}
    {n : Nat} {plan : Plan α ρ n} (hplan : plan.Always p) {j : Nat}
    (hmem : (k, spec) ∈ s.enrolledBy j plan) : ∃ m next, p spec m next := by
  induction plan generalizing s with
  | report r => exact absurd hmem List.not_mem_nil
  | exchange spec' next ih =>
    obtain ⟨hp, hnext⟩ := hplan
    rw [enrolledBy] at hmem
    rcases List.mem_cons.mp hmem with heq | hlater
    · obtain ⟨-, rfl⟩ := Prod.mk.inj heq
      exact ⟨_, next, hp⟩
    · split at hlater
      · next r _ => exact ih r (hnext r) hlater
      · exact absurd hlater List.not_mem_nil

variable {q : Habit α ρ} {book : List (Nat × Spec α)}

/-- So is what a caller registers in its turn. -/
theorem heeded_of_enrolledWith {c : Caller α ρ} (hc : InBook q book c.id c.goal)
    (hmem : (k, spec) ∈ s.enrolledWith c) : ∃ m next, q k spec m next := by
  obtain rfl : k = c.id := eq_of_mem_enrolledWith hmem
  cases hg : c.goal with
  | readiness tell =>
    rw [enrolledWith, hg] at hmem
    exact absurd hmem List.not_mem_nil
  | exchange ex spec' n next =>
    rw [hg] at hc
    rw [s.enrolledWith_exchange hg] at hmem
    split at hmem
    · next r _ => exact heeded_of_enrolledBy (hc.2.2 r) hmem
    · exact absurd hmem List.not_mem_nil

/-- And what is registered in an event. -/
theorem heeded_of_enrolledIn (h : Booked q book s) {e : Event α ρ} (he : e.Heeds q s.next)
    (hmem : (k, spec) ∈ s.enrolledIn e) : ∃ m next, q k spec m next := by
  cases e with
  | next =>
    rw [enrolledIn, enrolledNext] at hmem
    split at hmem
    · next j rest _ =>
      cases hf : s.caller? j with
      | none =>
        rw [hf] at hmem
        exact absurd hmem List.not_mem_nil
      | some c =>
        rw [hf] at hmem
        exact heeded_of_enrolledWith (h.goals c (mem_of_caller?_eq_some hf).1) hmem
    · exact absurd hmem List.not_mem_nil
  | act step =>
    cases step with
    | launch label n plan =>
      obtain rfl := eq_of_mem_enrolledBy hmem
      exact heeded_of_enrolledBy he hmem
    | listen label m timeout tell =>
      obtain ⟨rfl, rfl⟩ := Prod.mk.inj (List.mem_singleton.mp hmem)
      exact ⟨0, _, he⟩
    | _ => exact absurd hmem List.not_mem_nil
  | _ => exact absurd hmem List.not_mem_nil

/-- Whatever is registered in some events is as it should be for its caller. -/
theorem heeded_of_enrolledOver (ho : s.Orderly) (h : Booked q book s)
    {events : List (Event α ρ)} (he : s.Heedful q events)
    (hmem : (k, spec) ∈ s.enrolledOver events) : ∃ m next, q k spec m next := by
  induction events generalizing s book with
  | nil => exact absurd hmem List.not_mem_nil
  | cons e rest ih =>
    rcases List.mem_append.mp hmem with hfirst | hlater
    · exact heeded_of_enrolledIn h he.1 hfirst
    · exact ih (ho.after [e]) (h.occur ho he.1) he.2 hlater

end Heeded

end Switchboard

namespace Call

variable {limits : Limits} {profile : Profile} {request : Order.Request} {side : Order.Side}
  {n : Nat} {legs : List (Leg Answer)} {spec : Spec Answer}
  {next : Resolution Answer → Plan Answer CallResult n}

/-- The instrument can be read off the frame of an order. -/
theorem instrumentId_of_frame {p p' : Order.Placement} (h : p.frame.toJson = p'.frame.toJson) :
    p.instrumentId = p'.instrumentId := by
  have hbody : p.toJson = p'.toJson :=
    (Inquiry.mk.inj (Frame.send.inj (Frame.toJson_injective h))).2.2
  simp only [Order.Placement.toJson, Json.object.injEq, List.cons.injEq, Prod.mk.injEq,
    true_and, Json.string.injEq] at hbody
  exact hbody.2.1

/-- A plan to place an order goes over no other exchange than that. -/
theorem place_of_along {instrumentId : String}
    (h : (placePlan limits profile request side instrumentId).Along legs
      (.exchange spec next)) :
    spec = placeSpec limits profile request side instrumentId := by
  cases h with
  | here => rfl
  | past hrest => cases hrest

/-- An order is for the instrument that its request names, or for the one that was found for its
ticker. -/
theorem instrument_of_along
    (h : (placementPlan limits profile request side).2.Along legs (.exchange spec next))
    {p : Order.Placement} (hp : spec.request = p.frame.toJson) :
    (request.tickerToResolve = none ∧ p.instrumentId = request.namedInstrument) ∨
      ∃ ticker, request.tickerToResolve = some ticker ∧ ∃ l ∈ legs,
        l.spec.matcher = Answer.toInstrument ticker ∧
          foundIn l.resolution = some p.instrumentId := by
  have hplaced : ∀ {instrumentId : String},
      spec = placeSpec limits profile request side instrumentId →
      instrumentId = p.instrumentId := by
    rintro instrumentId rfl
    exact instrumentId_of_frame hp
  rw [placementPlan] at h
  cases hticker : request.tickerToResolve with
  | none =>
    rw [hticker] at h
    exact .inl ⟨rfl, (hplaced (place_of_along h)).symm⟩
  | some ticker =>
    rw [hticker] at h
    refine .inr ⟨ticker, rfl, ?_⟩
    cases h with
    | here =>
      -- the lookup itself places nothing
      have hsilent : Broker.Silent (Call.spec
          (.instrumentChanges (orderedFamily request.family) profile.userGroupId
            profile.isRegulated)
          (Answer.toInstrument ticker) limits.instruments) :=
        Broker.silent_of_name_ne rfl (by simp) fun _ => rfl
      exact absurd hp (hsilent.request_ne p)
    | past hrest =>
      refine ⟨_, List.mem_cons_self, rfl, ?_⟩
      dsimp only at hrest
      split at hrest
      · next id hfound => rw [hfound, hplaced (place_of_along hrest)]
      · cases hrest

end Call

namespace Order.Request

/-- A request that looks up no ticker names an instrument. -/
theorem namedInstrument_ne_empty {r : Request} (h : r.tickerToResolve = none) :
    r.namedInstrument ≠ "" := by
  intro hempty
  simp [tickerToResolve, hempty] at h

end Order.Request

namespace Broker

/-- Where the instrument of an order of the caller `k` comes from: the request names it, or an
exchange of that caller has found it for the ticker of the request. -/
inductive InstrumentOf (b : Broker ρ) (deeds : List (Deed ρ)) (k : Nat)
    (request : Order.Request) :
    String → Prop
  | given (h : request.tickerToResolve = none) :
      InstrumentOf b deeds k request request.namedInstrument
  | found {ticker id : String} (h : request.tickerToResolve = some ticker) {ex : Nat}
    {spec : Spec Answer} (hline : (b.ledger deeds)[ex]? = some (k, spec))
    (hmatcher : spec.matcher = Answer.toInstrument ticker) {m : Matched Answer}
    (hmatched : (b.course deeds).board.resolution? ex = some (.matched m))
    (hid : Instrument.Has m.raw ticker id) : InstrumentOf b deeds k request id

/-- An instrument that was found has an id that is not empty. -/
theorem InstrumentOf.ne_empty {b : Broker ρ} {deeds : List (Deed ρ)} {k : Nat}
    {request : Order.Request} {id : String} (h : b.InstrumentOf deeds k request id) :
    id ≠ "" := by
  cases h with
  | given hnone => exact Order.Request.namedInstrument_ne_empty hnone
  | found _ _ _ _ hid => exact Instrument.ne_empty_of_has hid

/-! ### Frames that are no requests -/

/-- A handshake with a token. -/
def IsHandshake (frame : Json) : Prop :=
  ∃ token, frame = (Frame.handshake token).toJson

/-- A call that is prepared sets a handshake only. -/
theorem greets_prepare {b : Broker ρ} (h : b.board.Greets IsHandshake) (c : Call) :
    (b.prepare c).1.board.Greets IsHandshake := by
  obtain ⟨session, heq | heq⟩ := b.prepare_cases c <;> rw [heq]
  · exact h
  · refine ⟨fun frame hframe => ?_, h.sent⟩
    obtain ⟨token, -, rfl⟩ := Option.map_eq_some_iff.mp hframe
    exact ⟨token, rfl⟩

/-- What has been sent up to the end of a course and is no request is a handshake with a token.
-/
theorem greets_course {b : Broker ρ} (ho : b.board.Orderly) (h : b.board.Greets IsHandshake)
    (deeds : List (Deed ρ)) : (b.course deeds).board.Greets IsHandshake := by
  have htick : ∀ {b : Broker ρ}, b.board.Orderly → b.board.Greets IsHandshake →
      ∀ t : Step Answer ρ, (Event.act t).Greets IsHandshake →
        (b.tick t).board.Greets IsHandshake := by
    intro b ho h t ht
    rw [board_tick, ← after_trace ho]
    exact h.after
      (forall_trace (p := Event.Greets IsHandshake) trivial (fun _ => trivial) (fun _ => ht) _)
  induction deeds generalizing b with
  | nil => exact h
  | cons d rest ih =>
    refine ih (orderly_follow ho d) ?_
    cases d with
    | call label c tell =>
        exact htick ((b.reaches_prepare c).1.orderly ho) (greets_prepare h c) _ trivial
    | reply label r => exact htick ho h _ trivial
    | session script => exact h
    | stores failure => exact h
    | upsert result =>
      rw [follow, upsertResult, withStores]
      cases b.storeFailure <;> exact h
    | wire c => exact htick ho h _ trivial
    | advance duration => exact htick ho h _ trivial

section Course

variable {config : VenueConfig} {session : SessionScript} {responders : List Responder}
  {deeds : List (Deed ρ)}

/-- Whoever has sent an order was called for it, and its instrument is named or has been found.
-/
theorem exists_instrumentOf {x : Sent}
    (hx : x ∈ ((start config session responders).course deeds).board.wire.sent)
    {p : Order.Placement} (hframe : x.frame = p.frame.toJson) :
    ∃ k label request tell,
      (start config session responders).Brought deeds k
        (.call label (.placement request) tell) ∧
      (start config session responders).InstrumentOf deeds k request p.instrumentId := by
  have hord := orderly_board_start (ρ := ρ) config session responders
  have hgreets : (start config session responders : Broker ρ).board.Greets IsHandshake :=
    ⟨nofun, nofun⟩
  cases hex : x.exchange with
  | none =>
    obtain ⟨token, htoken⟩ := (greets_course hord hgreets deeds).sent x hx hex
    cases Frame.toJson_injective (hframe.symm.trans htoken)
  | some ex =>
    obtain ⟨k, spec, hline, hrequest⟩ := booked_ledger.frames x hx ex hex
    have hp : spec.request = p.frame.toJson := hrequest.symm.trans hframe
    obtain ⟨m, next, hheeds⟩ := heeded_of_enrolledOver hord
      (booked_start config session responders _)
      (heedful_course config session responders (List.append_nil _).symm)
        (List.mem_of_getElem? hline)
    rcases hheeds with hsilent | ⟨label, request, tell, hvisit, -⟩
    · exact absurd hp (hsilent.request_ne p)
    · have hcall := (brought_iff hord rfl rfl).mpr hvisit
      refine ⟨k, label, request, tell, hcall, ?_⟩
      obtain ⟨b, -, htrod⟩ := trod_of_brought hcall
      obtain ⟨legs, m, next, halong, hlegs⟩ := htrod.along_of_line (mem_linesOf.mpr hline)
      obtain ⟨plan, hplan, hmap⟩ := halong.of_map
      cases plan with
      | report r => cases hmap
      | exchange spec' next' =>
        obtain ⟨rfl, -⟩ := Plan.exchange.inj hmap
        rcases b.prepare_placement request with ⟨b', e, heq⟩ | ⟨b', profile, side, heq⟩
        · rw [heq] at hplan
          cases hplan
        · rw [heq] at hplan
          rcases Call.instrument_of_along hplan hp with
            ⟨hnone, hid⟩ | ⟨ticker, hticker, l, hl, hmatcher, hfound⟩
          · exact hid ▸ .given hnone
          · obtain ⟨hrun, hmem⟩ := hlegs l hl
            obtain ⟨m, hm, hfind⟩ := Call.found_of_foundIn hrun hmatcher hfound
            exact .found hticker (mem_linesOf.mp hmem) hmatcher (hm ▸ hrun.ended)
              (Instrument.find?_eq_some_iff.mp hfind)

/-- A lookup that is answered comes to the id that its message has for the ticker. -/
theorem value_of_lookup {ex k : Nat} {spec : Spec Answer} {ticker : String} {m : Matched Answer}
    (hline : ((start config session responders).ledger deeds)[ex]? = some (k, spec))
    (hmatcher : spec.matcher = Answer.toInstrument ticker)
    (hmatched : ((start config session responders).course deeds).board.resolution? ex =
      some (.matched m)) :
    ∃ id, Instrument.Has m.raw ticker id ∧ m.value = .instrument id := by
  obtain ⟨o, hout, ho⟩ := resolution?_eq_some_iff.mp hmatched
  rcases met_or_failed hline (fun _ => by rw [hmatcher]; rfl) hout with
    ⟨before, n, raw, seen, hmeets, hr⟩ | ⟨seen, hr, -⟩ | ⟨seen, hr⟩
  · obtain rfl := Resolution.matched.inj (ho.symm.trans hr)
    have haccepts := hmeets.accepts
    rw [hmatcher] at haccepts ⊢
    obtain ⟨id, hid⟩ := Option.isSome_iff_exists.mp haccepts
    refine ⟨id, Instrument.find?_eq_some_iff.mp hid, ?_⟩
    change Answer.instrument ((Instrument.find? raw ticker).getD "") = _
    rw [show Instrument.find? raw ticker = some id from hid, Option.getD_some]
  · cases ho.symm.trans hr
  · cases ho.symm.trans hr

end Course

/-- **Ids of instruments.** What is found for a ticker in a message is the id of the first of
its entries with that ticker, if the message is about instruments and that id is neither `null`
nor false, zero or no text; the case of the ticker does not matter, and the id is never empty.
So in every course a lookup that is answered has come to such an id. Every order that is sent
was called for; it has the instrument that its request names or one that its caller has looked
up, and that is not empty. -/
theorem instrument_ids_are_found (config : VenueConfig) (session : SessionScript)
    (responders : List Responder) (deeds : List (Deed ρ)) :
    let b := start config session responders
    (∀ raw ticker id, Instrument.find? raw ticker = some id ↔ Instrument.Has raw ticker id) ∧
    (∀ raw ticker ticker', Text.SameLetters ticker.toList ticker'.toList →
      Instrument.find? raw ticker = Instrument.find? raw ticker') ∧
    (∀ raw ticker, Instrument.find? raw ticker ≠ some "") ∧
    (∀ ex k spec ticker m, (b.ledger deeds)[ex]? = some (k, spec) →
      spec.matcher = Answer.toInstrument ticker →
      (b.course deeds).board.resolution? ex = some (.matched m) →
      ∃ id, Instrument.Has m.raw ticker id ∧ m.value = .instrument id ∧ id ≠ "") ∧
    ∀ x ∈ (b.course deeds).board.wire.sent, ∀ p : Order.Placement, x.frame = p.frame.toJson →
      p.instrumentId ≠ "" ∧ ∃ k label request tell,
        b.Brought deeds k (.call label (.placement request) tell) ∧
        b.InstrumentOf deeds k request p.instrumentId := by
  intro b
  refine ⟨fun _ _ _ => Instrument.find?_eq_some_iff, fun _ _ _ => Instrument.find?_congr,
    fun raw ticker h => ?_, fun ex k spec ticker m hline hmatcher hmatched => ?_,
      fun x hx p hframe => ?_⟩
  · exact Instrument.ne_empty_of_has (Instrument.find?_eq_some_iff.mp h) rfl
  · obtain ⟨id, hid, hvalue⟩ := value_of_lookup hline hmatcher hmatched
    exact ⟨id, hid, hvalue, Instrument.ne_empty_of_has hid⟩
  · obtain ⟨k, label, request, tell, hcall, hinstrument⟩ := exists_instrumentOf hx hframe
    exact ⟨hinstrument.ne_empty, k, label, request, tell, hcall, hinstrument⟩

end Broker

namespace Service

open Broker

/-- An order with a ticker is called for, and a list of instruments comes in that has the
ticker. -/
def buyingListed : List (Deed CallResult) :=
  [.call "a" (.placement tickerToBuy) id, .advance 150, .wire (.push listing), .advance 150]

/-- The id of the list is found for the ticker in either case, it is what the lookup comes to,
and the order goes to the venue with it. -/
theorem listed_instrument_is_ordered :
    let placed := Call.placementOf ⟨193, false, 555⟩ tickerToBuy .buy "77"
    (fresh.course buyingListed).board.wire.sent.getLast?.map Sent.frame =
      some placed.frame.toJson ∧
      placed.instrumentId ≠ "" ∧ Instrument.Has listing "eurusd" "77" ∧
      Instrument.find? listing "eurusd" = Instrument.find? listing "EURUSD" ∧
      ∃ ex spec m, (fresh.ledger buyingListed)[ex]? = some (0, spec) ∧
        spec.matcher = Answer.toInstrument "EURUSD" ∧
        (fresh.course buyingListed).board.resolution? ex = some (.matched m) ∧
        m.value = .instrument "77" := by
  intro placed
  obtain ⟨hfinds, hcase, -, hlookups, hframes⟩ :=
    instrument_ids_are_found {} loggedIn [] buyingListed
  have hlast : (fresh.course buyingListed).board.wire.sent.getLast?.map Sent.frame =
      some placed.frame.toJson := by decide +kernel
  obtain ⟨x, hx, hframe⟩ := Option.map_eq_some_iff.mp hlast
  obtain ⟨hne, k, label, request, tell, hcall, hinstrument⟩ :=
    hframes x (List.mem_of_getLast? hx) placed hframe
  refine ⟨hlast, hne, (hfinds _ _ _).mp (by decide +kernel),
    hcase _ _ _ (Text.lowerAscii_eq_iff.mp (by decide +kernel)), ?_⟩
  have hvisit : [Deed.call "a" (.placement tickerToBuy) id][k]? =
      some (.call label (.placement request) tell) :=
    (brought_iff (orderly_board_start {} loggedIn []) rfl rfl).mp hcall
  rw [List.getElem?_singleton] at hvisit
  obtain ⟨rfl, hdeed⟩ := Option.ite_none_right_eq_some.mp hvisit
  cases Option.some.inj hdeed
  have hresolve : tickerToBuy.tickerToResolve = some "EURUSD" := by decide +kernel
  generalize hid : placed.instrumentId = found at hinstrument
  cases hinstrument with
  | given hnone => cases hresolve.symm.trans hnone
  | @found ticker found hticker ex spec hline hmatcher m hmatched hhas =>
    obtain rfl := Option.some.inj (hresolve.symm.trans hticker)
    obtain ⟨found', hhas', hvalue, -⟩ := hlookups ex 0 spec _ m hline hmatcher hmatched
    obtain rfl :=
      Option.some.inj (((hfinds _ _ _).mpr hhas).symm.trans ((hfinds _ _ _).mpr hhas'))
    exact ⟨ex, spec, m, hline, hmatcher, hmatched,
      hvalue.trans (congrArg Answer.instrument hid.symm)⟩

end Service

end VenueLink

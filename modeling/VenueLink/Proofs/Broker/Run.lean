import VenueLink.Proofs.Switchboard.Run
import VenueLink.Service

/-!
# Runs of a broker and of a service

Whatever a broker does to its switchboard is a run of events, so all that holds of every run of
events holds of every service. The orders that a broker has saved are kept by exchanges that
were answered; some may be missing, since the store may have failed.

## Main results

* `reaches_service`: events lead to the switchboard of every run of a service.
* `saved_sublist`: the saved orders are among those that the outcomes of the exchanges keep, in
  order.
-/

namespace VenueLink

open Exchange Switchboard

variable {ρ : Type}

/-- What is kept of the orders that were acknowledged so far, the earliest in front. -/
def Switchboard.kept (s : Switchboard Answer ρ) : List Order.Details :=
  s.correlator.outcomes.filterMap fun o => o.resolution.value?.bind Answer.kept?

namespace Broker

/-- Events lead from the start to the switchboard of the broker, and its orders are
acknowledged. -/
structure Faithful (cap : Nat) (b : Broker ρ) : Prop where
  board : (Switchboard.start cap false).Reaches b.board
  orders : (b.orders.records.map Order.Record.details).Sublist b.board.kept

/-- The venue learns to reply. -/
theorem reaches_respond (s : Switchboard Answer ρ) (responders : List Responder) :
    s.Reaches
      { s with wire := { s.wire with responders := s.wire.responders ++ responders } } := by
  induction responders generalizing s with
  | nil =>
    rw [List.append_nil]
    exact .refl s
  | cons r rest ih =>
    have hone := s.reaches_occur (.act (.wire (.respond r)))
    have hrest := ih (s.occur (.act (.wire (.respond r))))
    have heq : (s.occur (.act (.wire (.respond r)))).wire.responders ++ rest =
        s.wire.responders ++ r :: rest :=
      List.append_assoc _ [r] rest
    rw [heq] at hrest
    exact hone.trans hrest

/-- At the start the broker is faithful. -/
theorem faithful_start (config : VenueConfig) (session : SessionScript)
    (responders : List Responder) :
    (start config session responders : Broker ρ).Faithful config.transcriptCap where
  board := reaches_respond (.start config.transcriptCap false) responders
  orders := List.Sublist.refl []

/-- A faithful broker is in order. -/
theorem Faithful.orderly {cap : Nat} {b : Broker ρ} (h : b.Faithful cap) : b.board.Orderly :=
  h.board.orderly (orderly_start cap false)

/-- Before a call starts the session may change, and then the handshake is brought up to date,
or not. -/
theorem prepare_cases (b : Broker ρ) (c : Call) : ∃ session,
    (b.prepare c).1 = { b with session := session } ∨
      (b.prepare c).1 = ({ b with session := session } : Broker ρ).syncHandshake := by
  cases c with
  | login credentials =>
    rw [prepare]
    dsimp only
    cases (b.session.logIn credentials).2 with
    | ok o => exact ⟨_, .inr rfl⟩
    | error e => exact ⟨_, .inl rfl⟩
  | balances kinds =>
    rw [prepare]
    cases b.session.refusal with
    | none => exact ⟨b.session, .inr rfl⟩
    | some e => exact ⟨b.session, .inl rfl⟩
  | instrument search ticker =>
    rw [prepare]
    split
    · exact ⟨b.session, .inl rfl⟩
    · exact ⟨b.session, .inr rfl⟩
  | placement request =>
    rw [prepare]
    cases request.resolvedSide with
    | error e => exact ⟨b.session, .inl rfl⟩
    | ok side =>
      dsimp only
      split
      · exact ⟨b.session, .inl rfl⟩
      · cases b.session.refusal with
        | none => exact ⟨b.session, .inr rfl⟩
        | some e => exact ⟨b.session, .inl rfl⟩
  | status orderId =>
    rw [prepare]
    split
    · exact ⟨b.session, .inl rfl⟩
    · exact ⟨b.session, .inr rfl⟩

/-- Before a call starts nothing changes but the session and the handshake. -/
theorem prepare_eq (b : Broker ρ) (c : Call) :
    ∃ session, (b.prepare c).1 = { b with
      session := session
      board := b.board.occur (.act (.setHandshake (b.prepare c).1.board.link.handshake)) } := by
  obtain ⟨session, heq | heq⟩ := b.prepare_cases c <;> exact ⟨session, by rw [heq]; rfl⟩

/-- A call that is prepared sets the handshake at most. -/
theorem prepare_board (b : Broker ρ) (c : Call) : (b.prepare c).1.board =
    b.board.occur (.act (.setHandshake (b.prepare c).1.board.link.handshake)) := by
  obtain ⟨session, heq⟩ := b.prepare_eq c
  exact congrArg Broker.board heq

/-- So the switchboard goes on by events, and no order is touched. -/
theorem reaches_prepare (b : Broker ρ) (c : Call) :
    b.board.Reaches (b.prepare c).1.board ∧ (b.prepare c).1.orders = b.orders := by
  obtain ⟨session, heq⟩ := b.prepare_eq c
  exact ⟨b.prepare_board c ▸ b.board.reaches_occur _, by rw [heq]⟩

/-- Orders that are kept stay so. -/
theorem kept_mono {s s' : Switchboard Answer ρ} (ho : s.Orderly) (h : s.Reaches s') :
    s'.kept = s.kept ++ acknowledged s s' := by
  obtain ⟨events, rfl⟩ := h
  obtain ⟨more, hmore⟩ := (ho.evolves events).outcomes
  rw [kept, acknowledged, ← hmore, List.filterMap_append, List.drop_left, kept]

/-- Orders that are saved do not touch the switchboard. -/
theorem board_foldl_save (kept : List Order.Details) (b : Broker ρ) :
    (kept.foldl save b).board = b.board := by
  have hsave : ∀ (b : Broker ρ) (d : Order.Details), (b.save d).board = b.board := by
    intro b d
    rw [save]
    cases b.storeFailure <;> rfl
  induction kept generalizing b with
  | nil => rfl
  | cons d rest ih => rw [List.foldl_cons, ih, hsave]

/-- Nor the configuration. -/
theorem config_foldl_save (kept : List Order.Details) (b : Broker ρ) :
    (kept.foldl save b).config = b.config := by
  have hsave : ∀ (b : Broker ρ) (d : Order.Details), (b.save d).config = b.config := by
    intro b d
    rw [save]
    cases b.storeFailure <;> rfl
  induction kept generalizing b with
  | nil => rfl
  | cons d rest ih => rw [List.foldl_cons, ih, hsave]

/-- Either all orders of a list are saved, in order, or none. -/
theorem details_foldl_save (kept : List Order.Details) (b : Broker ρ) :
    (kept.foldl save b).orders.records.map Order.Record.details =
      b.orders.records.map Order.Record.details ++
        if b.storeFailure.isNone then kept else [] := by
  induction kept generalizing b with
  | nil => simp
  | cons d rest ih =>
    rw [List.foldl_cons, ih]
    cases hf : b.storeFailure with
    | none => simp [save, hf, Order.Details.stamped]
    | some e => simp [save, hf]

/-- A call that is prepared keeps the broker faithful. -/
theorem Faithful.prepare {cap : Nat} {b : Broker ρ} (h : b.Faithful cap) (c : Call) :
    (b.prepare c).1.Faithful cap := by
  obtain ⟨hreach, horders⟩ := b.reaches_prepare c
  refine ⟨h.board.trans hreach, ?_⟩
  rw [horders, kept_mono h.orderly hreach]
  exact h.orders.trans (List.sublist_append_left _ _)

/-- So does a tick. -/
theorem Faithful.tick {cap : Nat} {b : Broker ρ} (h : b.Faithful cap)
    (t : Switchboard.Step Answer ρ) : (b.tick t).Faithful cap := by
  have hreach := reaches_step h.orderly t
  refine ⟨?_, ?_⟩
  · rw [Broker.tick, board_foldl_save]
    exact h.board.trans hreach
  · rw [Broker.tick, details_foldl_save, board_foldl_save, kept_mono h.orderly hreach]
    refine h.orders.append ?_
    split
    · exact List.Sublist.refl _
    · exact List.nil_sublist _

/-- And a call. -/
theorem Faithful.call {cap : Nat} {b : Broker ρ} (h : b.Faithful cap) (label : String)
    (c : Call) (tell : CallResult → ρ) : (b.call label c tell).Faithful cap :=
  (h.prepare c).tick _

/-- And an answer. -/
theorem Faithful.reply {cap : Nat} {b : Broker ρ} (h : b.Faithful cap) (label : String)
    (r : ρ) : (b.reply label r).Faithful cap :=
  h.tick _

/-- And a result that is written. -/
theorem Faithful.upsertResult {cap : Nat} {b : Broker ρ} (h : b.Faithful cap)
    (result : DailyResult) : (b.upsertResult result).1.Faithful cap := by
  rw [Broker.upsertResult, withStores]
  cases b.storeFailure with
  | none => exact ⟨h.board, h.orders⟩
  | some e => exact h

end Broker

namespace Service

open Broker

/-- And a request that is served. -/
theorem faithful_serve {cap : Nat} {s : Service} (h : s.Faithful cap) (label : String)
    (r : Http.Request) : (s.serve label r).Faithful cap := by
  rw [serve]
  dsimp only
  cases r.action with
  | call c => exact h.call label c _
  | upsertResult result => exact (h.upsertResult result).reply label _
  | _ => exact h.reply label _

/-- And a step of the service. -/
theorem faithful_step {cap : Nat} {s : Service} (h : s.Faithful cap) (t : Step) :
    (s.step t).Faithful cap := by
  cases t with
  | call label c => exact h.call label c _
  | http label r => exact faithful_serve h label r
  | session script => exact ⟨h.board, h.orders⟩
  | stores failure => exact ⟨h.board, h.orders⟩
  | wire c => exact h.tick _
  | advance duration => exact h.tick _

/-- And a run. -/
theorem faithful_run {cap : Nat} {s : Service} (h : s.Faithful cap) (steps : List Step) :
    (s.run steps).Faithful cap := by
  induction steps generalizing s with
  | nil => exact h
  | cons t rest ih => exact ih (faithful_step h t)

/-- Events lead from the start to the switchboard of every run of a service. -/
theorem reaches_service (config : VenueConfig) (session : SessionScript)
    (responders : List Responder) (steps : List Step) :
    (Switchboard.start config.transcriptCap false).Reaches
      (run (Broker.start config session responders) steps).board :=
  (faithful_run (faithful_start config session responders) steps).board

/-- The orders that a service has saved are among those that the outcomes of its exchanges keep,
in the same order. -/
theorem saved_sublist (config : VenueConfig) (session : SessionScript)
    (responders : List Responder) (steps : List Step) :
    let s := run (Broker.start config session responders) steps
    (s.orders.records.map Order.Record.details).Sublist s.board.kept :=
  (faithful_run (faithful_start config session responders) steps).orders

/-! ### A service to show things on -/

/-- A session that is there from the start. -/
def loggedIn : SessionScript where
  token := some "tok"
  refusal := none
  profile := .ok ⟨193, false, 555⟩
  login := { answer := .ok ⟨true, .object []⟩ }

/-- An order for an instrument that is named. -/
def tenToBuy : Order.Request where
  userBalanceId := 3
  family := .digitalOption
  instrumentId := some "1861"
  side := some "buy"
  action := none
  amount := (Decimal.ofInt? 10).getD .zero
  leverage := none
  limitPrice := none
  stopPrice := none
  stopLoseValue := none
  stopLoseKind := none
  takeProfitValue := none
  takeProfitKind := none

/-- A service that has placed one order, and has done the given steps since then. The exchange
of the order is the first one. -/
def ordering (steps : List Step) : Service :=
  run (Broker.start {} loggedIn []) (.call "a" (.placement tenToBuy) :: steps)

/-- A message that says of an order that it was refused. -/
def refusal : Json :=
  .object [("name", .string "order-placed-temp"), ("status", .integer 4000)]

/-- What has been reported to those who placed orders. -/
def placements (s : Service) : List PlacementReport :=
  s.board.reports.filterMap fun r =>
    match r.report with
    | .result (.ok (.placement report)) => some report
    | _ => none

/-- The example goes on by events. -/
theorem reaches_ordering (steps : List Step) :
    (Switchboard.start ({} : VenueConfig).transcriptCap false).Reaches (ordering steps).board :=
  reaches_service {} loggedIn [] _

end Service

end VenueLink

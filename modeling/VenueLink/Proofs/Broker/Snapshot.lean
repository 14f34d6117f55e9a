import VenueLink.Proofs.Broker.Ledger

/-!
# Balances from a snapshot

A list of balances answers all callers who wait for one at that moment, whatever kinds each of
them has asked for: the exchanges share the message, so it goes on to the next one unless some
other exchange keeps it. What a caller is told is read from the message for its own kinds, which
are those that its request has named to the venue.

## Main results

* `once_of_asksBalances`: a question for balances that has got an exchange is a plan of that
  exchange.
* `snapshot_answers_all`: what a list of balances does to all who wait for one.
-/

namespace VenueLink

open Exchange Exchange.Plan Switchboard

variable {ρ : Type}

/-! ### Kinds -/

/-- Some kind of balance is always asked for. -/
theorem Call.kindsOrDefault_ne_nil (kinds : List Int) : kindsOrDefault kinds ≠ [] := by
  rw [kindsOrDefault]
  cases kinds with
  | nil => simp [Balance.defaultKinds]
  | cons kind rest => simp

/-- If some kinds are given, the balances that are read are those of the kinds. -/
theorem Balance.extract_of_listed {raw : Json} {entries : List Json}
    (h : listed? raw = some entries) {kinds : List Int} (hkinds : kinds ≠ []) :
    extract raw kinds = (entries.map ofEntry).filter (·.kind ∈ kinds) := by
  rw [extract, h]
  refine List.filter_congr fun balance _ => ?_
  simp [isOfKind, hkinds]

/-- The kinds that a frame asks for. -/
def Frame.kindsIn? (frame : Json) : Option Json :=
  ((frame.get? "msg").bind (·.get? "body")).bind (·.get? "types_ids")

/-- The kinds are those in the frame. -/
theorem Frame.kindsIn?_balances (kinds : List Int) :
    kindsIn? (balances kinds).toJson = some (.array (kinds.map .integer)) :=
  rfl

namespace Broker

/-! ### Questions for balances -/

/-- The caller `k` has asked for balances of some kinds, and has got the exchange `ex` for that.
-/
def AsksBalances (b : Broker ρ) (deeds : List (Deed ρ)) (k : Nat) (kinds : List Int)
    (tell : CallResult → ρ) (ex : Nat) : Prop :=
  (∃ label, b.Brought deeds k (.call label (.balances kinds) tell)) ∧
    ∃ spec, (b.ledger deeds)[ex]? = some (k, spec)

section Course

variable {config : VenueConfig} {session : SessionScript} {responders : List Responder}
  {deeds : List (Deed ρ)} {k ex : Nat} {kinds : List Int} {tell : CallResult → ρ}

/-- A question for balances stays asked. -/
theorem AsksBalances.append
    (h : (start config session responders).AsksBalances deeds k kinds tell ex)
    (more : List (Deed ρ)) :
    (start config session responders).AsksBalances (deeds ++ more) k kinds tell ex := by
  obtain ⟨⟨label, hcall⟩, spec, hline⟩ := h
  exact ⟨⟨label, hcall.append more⟩, spec,
    ledger_append _ deeds more ▸ getElem?_append_of_eq_some hline _⟩

/-- Whoever has an exchange for its question has asked only once, for its kinds. -/
theorem once_of_asksBalances
    (h : (start config session responders).AsksBalances deeds k kinds tell ex) :
    ∃ limit, Trod
      ((start config session responders).board.Answers
        ((start config session responders).history deeds) k)
      ((start config session responders).course deeds).board
      ((start config session responders).ledger deeds) k
      (.exchange (Call.spec (.balances (Call.kindsOrDefault kinds))
          (Answer.toBalances (Call.kindsOrDefault kinds)) limit) fun r =>
        (.report (tell (.ok (.balances (Call.balanceReport r)))) : Plan Answer ρ 0)) := by
  obtain ⟨⟨label, hcall⟩, spec, hline⟩ := h
  obtain ⟨b, -, htrod⟩ := trod_of_brought hcall
  rw [prepare] at htrod
  cases hsession : b.session.refusal with
  | none =>
    rw [hsession] at htrod
    exact ⟨_, htrod⟩
  | some e =>
    -- without a session there would be no exchange
    rw [hsession] at htrod
    obtain ⟨legs, -, ⟨c, -, -, ex', spec', m, next, -, halong, -⟩ |
        ⟨-, r, m, -, halong, hlines⟩⟩ := htrod
    · cases halong
    · cases halong
      rw [← mem_linesOf, hlines] at hline
      cases hline

/-- At a moment of the course a list of balances gets to the exchange `ex`. -/
def Lists (b : Broker ρ) (deeds : List (Deed ρ)) (before : List (Event Answer ρ)) (n : Nat)
    (m : Json) (ex : Nat) (kinds : List Int) : Prop :=
  b.board.Meets (b.history deeds) before n m ex (Answer.toBalances (Call.kindsOrDefault kinds))

/-- What a call answers whose exchange a list of balances has got to. -/
theorem answers_of_lists {before : List (Event Answer ρ)} {n : Nat} {m : Json}
    (h : (start config session responders).AsksBalances deeds k kinds tell ex)
    (hlists : (start config session responders).Lists deeds before n m ex kinds) :
    let reply := tell (.ok (.balances ⟨true, Balance.extract m (Call.kindsOrDefault kinds)⟩))
    ((start config session responders).board.Answers
      ((start config session responders).history deeds) k
        reply ∨ ((start config session responders).course deeds).board.EnRoute ex) ∧
      ∀ r, (start config session responders).board.Answers
        ((start config session responders).history deeds) k r → r = reply := by
  intro reply
  have hord := orderly_board_start (ρ := ρ) config session responders
  obtain ⟨limit, honce⟩ := once_of_asksBalances h
  obtain ⟨ex', hlines, -⟩ := honce.once
  obtain ⟨-, spec, hline⟩ := h
  have hmem := mem_linesOf.mpr hline
  rw [hlines] at hmem
  obtain ⟨rfl, rfl⟩ := Prod.mk.inj (List.mem_singleton.mp hmem)
  obtain ⟨seen, hresolved⟩ := resolution?_of_meets hlists
  refine ⟨honce.answers_or_enRoute orderly_course minded_course
    (quiet_course hord (quiet_board_start config session responders) deeds)
      (mem_linesOf.mpr hline)
    hresolved, fun r hr => ?_⟩
  obtain ⟨ex', resolution, hlines', hresolved', rfl⟩ := once_of_answers honce hr
  obtain ⟨rfl, -⟩ := Prod.mk.inj (List.cons.inj (hlines'.symm.trans hlines)).1
  obtain rfl := Option.some.inj (hresolved'.symm.trans hresolved)
  rfl

end Course

/-- What a snapshot with the given entries, which is offered after `n` signals of an event,
comes to for the caller `k`: its exchange has ended with it at once, its request asks for the
kinds that it is answered, and it answers the entries of those kinds, in their order and in
normal form, at its deadline at the latest. -/
structure SeesSnapshot (b : Broker ρ) (deeds : List (Deed ρ)) (before : List (Event Answer ρ))
    (n : Nat) (m : Json) (entries : List Json) (k : Nat) (kinds : List Int)
    (tell : CallResult → ρ) (ex : Nat) : Prop where
  ended : ∃ seen, ((b.board.after before).midst (n + 1)).correlator.outcome? ex =
    some ⟨ex, (b.board.after before).now,
      .matched ⟨.balances ((entries.map Balance.ofEntry).filter
      (·.kind ∈ Call.kindsOrDefault kinds)), m, seen⟩⟩
  gone : ex ∉ ((b.board.after before).midst (n + 1)).correlator.pendingIds
  asked : ∃ spec, (b.ledger deeds)[ex]? = some (k, spec) ∧
    Frame.kindsIn? spec.request = some (.array ((Call.kindsOrDefault kinds).map .integer)) ∧
    ∀ x ∈ (b.course deeds).board.wire.sent, x.exchange = some ex → x.frame = spec.request
  answers : ∃ duration, b.board.Answers (b.history (deeds ++ [.advance duration])) k
    (tell (.ok (.balances ⟨true, (entries.map Balance.ofEntry).filter
      (·.kind ∈ Call.kindsOrDefault kinds)⟩)))
  nothingElse : ∀ r, b.board.Answers (b.history deeds) k r →
    r = tell (.ok (.balances ⟨true, (entries.map Balance.ofEntry).filter
      (·.kind ∈ Call.kindsOrDefault kinds)⟩))

/-- **Balances from a snapshot.** At any moment of a course at which a message with a list of
balances is offered, and no exchange in front of a question for balances keeps it to itself: all
questions for balances that are open then end with it at once. Each of them answers, and that is
all that it can answer, the entries of the list that are of the kinds that its request asks for,
which are those of the call or the default ones. -/
theorem snapshot_answers_all (config : VenueConfig) (session : SessionScript)
    (responders : List Responder) (deeds : List (Deed ρ)) {before later : List (Event Answer ρ)}
    {n : Nat} {m : Json} {entries : List Json}
    (heq : (start config session responders).history deeds = before ++ .next :: later)
    (hoffers : ((start config session responders).board.after before).Offers n m)
    (hlisted : Balance.listed? m = some entries)
    (hfree : ∀ earlier e others,
      (((start config session responders).board.after before).midst n).correlator.entries =
        earlier ++ e :: others →
      (∃ k kinds tell, (start config session responders).AsksBalances deeds k kinds tell e.id) →
      ∀ d ∈ earlier, ¬d.Halts m) :
    ∀ e ∈ (((start config session responders).board.after before).midst n).correlator.entries,
      ∀ k kinds tell, (start config session responders).AsksBalances deeds k kinds tell e.id →
        (start config session responders).SeesSnapshot deeds before n m entries k kinds tell
          e.id := by
  intro e he k kinds tell hasks
  have hord := orderly_board_start (ρ := ρ) config session responders
  have hread := Balance.extract_of_listed hlisted (Call.kindsOrDefault_ne_nil kinds)
  obtain ⟨limit, honce⟩ := once_of_asksBalances hasks
  obtain ⟨ex, hlines, -⟩ := honce.once
  obtain ⟨spec, hline⟩ := hasks.2
  have hmem := mem_linesOf.mpr hline
  rw [hlines] at hmem
  obtain ⟨rfl, rfl⟩ := Prod.mk.inj (List.mem_singleton.mp hmem)
  -- the message gets to the exchange
  obtain ⟨earlier, others, hsplit⟩ := List.append_of_mem he
  have hlists : (start config session responders).Lists deeds before n m e.id kinds :=
    { moment := ⟨later, heq⟩
      offers := hoffers
      stands := ⟨earlier, e, others, hsplit, ⟨rfl, matcher_of_line heq he hline⟩,
        hfree earlier e others hsplit ⟨k, kinds, tell, hasks⟩⟩
      accepts := Option.isSome_iff_exists.mpr ⟨entries, hlisted⟩ }
  obtain ⟨seen, hout⟩ := hlists.outcome?_succ hord
  obtain ⟨duration, hlapsed⟩ := exists_lapsed hline
  refine ⟨⟨seen, ?_⟩, fun hp => ?_, ⟨_, hline, Frame.kindsIn?_balances _, fun x hx hex => ?_⟩,
    ⟨duration, ?_⟩, fun r hr => ?_⟩
  · rw [hout, ← hread]
    rfl
  · have hsound :=
      (passes_midst (hord.after before).sound (n + 1)).sound (hord.after before).sound
    rw [hsound.outcome?_of_pending hp] at hout
    cases hout
  · obtain ⟨k', spec', hline', hframe⟩ := booked_ledger.frames x hx e.id hex
    rw [hline] at hline'
    obtain ⟨-, rfl⟩ := Prod.mk.inj (Option.some.inj hline')
    exact hframe
  · rw [← hread]
    exact (answers_of_lists (hasks.append [.advance duration])
      (meets_append hlists _)).1.resolve_right
      fun h => h.not_lapsed hlapsed
  · rw [← hread]
    exact (answers_of_lists hasks hlists).2 r hr

end Broker

namespace Service

open Broker

/-- A list of three balances: for real money, for practice, and of another kind. -/
def snapshot : Json :=
  .object [("msg", .array [.object [("id", .integer 7), ("type", .integer 1)],
    .object [("id", .integer 8), ("type", .integer 4)],
    .object [("id", .integer 9), ("type", .integer 2)]])]

/-- Two callers ask for balances, the second one for the default kinds, and a list of balances
comes in. -/
def askingTogether : List (Deed CallResult) :=
  [.call "a" (.balances [2, 1]) id, .call "b" (.balances []) id, .advance 150,
    .wire (.push snapshot)]

/-- The ids of the balances that a result answers. -/
def balanceIds : CallResult → List Int
  | .ok (.balances found) => found.balances.map Balance.id
  | _ => []

/-- Both exchanges end with the list, and each caller is told the balances of its own kinds. -/
theorem snapshot_answers_both :
    let before := (fresh.history askingTogether).take 13
    ((fresh.board.after before).midst 0).correlator.pendingIds = [0, 1] ∧
      (fresh.course askingTogether).board.reports.map
        (fun r => (r.label, balanceIds r.report)) =
        [("a", [7, 9]), ("b", [7, 8])] ∧
      ∃ entries, Balance.listed? snapshot = some entries ∧
        fresh.SeesSnapshot askingTogether before 0 snapshot entries 0 [2, 1] id 0 ∧
        fresh.SeesSnapshot askingTogether before 0 snapshot entries 1 [] id 1 := by
  intro before
  have hopen : ((fresh.board.after before).midst 0).correlator.pendingIds = [0, 1] := by
    decide +kernel
  have hready : (fresh.board.after before).ready = [.signals] := by decide +kernel
  have hsplit : fresh.history askingTogether =
      before ++ .next :: (fresh.history askingTogether).drop 14 :=
    history_eq_of_ready (orderly_board_start {} loggedIn []) (quiet_board_start {} loggedIn [])
      (by decide +kernel) (hready ▸ List.cons_ne_nil _ _)
  have hinbox : ((fresh.board.after before).midst 0).inbox =
      [.message ((fresh.board.after before).midst 0).link.generation snapshot] := by
    decide +kernel
  have hpass : ∀ d ∈ ((fresh.board.after before).midst 0).correlator.entries,
      ¬d.Halts snapshot := by
    decide +kernel
  have hledger : (fresh.ledger askingTogether).map Prod.fst = [0, 1] := by decide +kernel
  obtain ⟨entries, hlisted⟩ : ∃ entries, Balance.listed? snapshot = some entries := ⟨_, rfl⟩
  have hsees : ∀ ex ∈ ((fresh.board.after before).midst 0).correlator.pendingIds, ∀ k kinds,
      fresh.AsksBalances askingTogether k kinds id ex →
        fresh.SeesSnapshot askingTogether before 0 snapshot entries k kinds id ex := by
    intro ex hex k kinds hasks
    obtain ⟨e, he, rfl⟩ := List.mem_map.mp hex
    exact snapshot_answers_all {} loggedIn [] askingTogether hsplit ⟨⟨[], hready⟩, [], hinbox⟩
      hlisted
      (fun earlier e others hentries _ d hd => hpass d (hentries ▸ List.mem_append_left _ hd))
      e he k kinds id hasks
  obtain ⟨⟨_, spec₀⟩, _, hlines, rfl, hrest⟩ := List.map_eq_cons_iff.mp hledger
  obtain ⟨⟨_, spec₁⟩, _, rfl, rfl, -⟩ := List.map_eq_cons_iff.mp hrest
  have hfirst : fresh.AsksBalances askingTogether 0 [2, 1] id 0 :=
    ⟨⟨"a", [], askingTogether.drop 1, rfl, rfl⟩, spec₀, by rw [hlines]; rfl⟩
  have hsecond : fresh.AsksBalances askingTogether 1 [] id 1 :=
    ⟨⟨"b", askingTogether.take 1, askingTogether.drop 2, rfl, by decide +kernel⟩, spec₁, by
      rw [hlines]; rfl⟩
  rw [hopen] at hsees
  exact ⟨hopen, by decide +kernel, entries, hlisted, hsees 0 (by simp) 0 [2, 1] hfirst,
    hsees 1 (by simp) 1 [] hsecond⟩

end Service

end VenueLink

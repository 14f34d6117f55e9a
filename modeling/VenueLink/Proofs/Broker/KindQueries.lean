import VenueLink.Command.Run
import VenueLink.Proofs.Balance.Kinds
import VenueLink.Proofs.Broker.Snapshot
import VenueLink.Proofs.Http.Routes

/-!
# Queries for balances

A query for balances, over HTTP or on the command line, lists its kinds in a text, and so it
names at least one. The broker asks the venue for these kinds, and reads them and no others from
its answer: that all balances are read, as for a filter without kinds, never comes of a query.

## Main results

* `exists_text_of_queried`: the kinds of a query are those of a text.
* `Broker.matcher_of_opens`: how an exchange of a call for balances reads its answer.
* `query_kinds`: from the text of a query to the balances that are read.
-/

namespace VenueLink

open Exchange Exchange.Plan Switchboard Balance

/-- The kinds are asked for over HTTP or on the command line. -/
inductive Balance.Queried (kinds : List Int) : Prop where
  | http (r : Http.Request) (h : r.action = .call (.balances kinds))
  | command (a : Command.Action) (h : a.call = .ok (some (.balances kinds)))

/-- The kinds of a request are those of its query. -/
theorem Http.Request.exists_types {r : Http.Request} {kinds : List Int}
    (h : r.action = .call (.balances kinds)) : ∃ types, kinds = kindsOf types := by
  obtain ⟨route, -, -, haction⟩ := exists_route h (by simp)
  have hoffers := r.offers_actionOn route
  rw [haction] at hoffers
  cases hoffers with
  | balances types => exact ⟨types, rfl⟩

/-- The kinds of a command are those of its flag. -/
theorem Command.Action.exists_types {a : Command.Action} {kinds : List Int}
    (h : a.call = .ok (some (.balances kinds))) : ∃ types, kinds = kindsOf (some types) := by
  cases a with
  | balances types =>
    cases h
    exact ⟨types, rfl⟩
  | resolve ticker search =>
    rw [call] at h
    cases hsearch : Instrument.Search.ofText search <;> rw [hsearch] at h <;> cases h
  | serve bind => cases h
  | status id => cases h

/-- The kinds of a query are those of a text. -/
theorem exists_text_of_queried {kinds : List Int} (h : Queried kinds) :
    ∃ raw, kinds = kindsOf raw := by
  cases h with
  | http r h => exact Http.Request.exists_types h
  | command a h =>
    obtain ⟨types, hkinds⟩ := Command.Action.exists_types h
    exact ⟨some types, hkinds⟩

namespace Broker

variable {ρ : Type}

/-- At some moment of the course the exchange `e` of the caller `k` is open. -/
def Opens (b : Broker ρ) (deeds : List (Deed ρ)) (k : Nat) (e : Entry Answer) : Prop :=
  (∃ before later n, b.history deeds = before ++ later ∧
    e ∈ ((b.board.after before).midst n).correlator.entries) ∧
  ∃ spec, (b.ledger deeds)[e.id]? = some (k, spec)

/-- Whatever the broker is, a call for balances asks for its kinds only. -/
theorem always_of_balances (b : Broker ρ) (kinds : List Int) :
    (b.prepare (.balances kinds)).2.2.Always fun spec _ _ =>
      spec.request = (Frame.balances (Call.kindsOrDefault kinds)).toJson ∧
        spec.matcher = Answer.toBalances (Call.kindsOrDefault kinds) := by
  rw [prepare]
  cases b.session.refusal with
  | none => exact ⟨⟨rfl, rfl⟩, fun _ => trivial⟩
  | some e => trivial

/-- An exchange of a call for balances takes any list of balances, and reads those of its kinds.
-/
theorem matcher_of_opens {config : VenueConfig} {session : SessionScript}
    {responders : List Responder} {deeds : List (Deed ρ)} {k : Nat} {label : String}
    {kinds : List Int} {tell : CallResult → ρ}
    {e : Entry Answer} (hcall : (start config session responders).Brought deeds k
      (.call label (.balances kinds) tell))
        (hopens : (start config session responders).Opens deeds k e) :
    e.matcher = Answer.toBalances (Call.kindsOrDefault kinds) := by
  obtain ⟨⟨before, later, n, heq, he⟩, spec, hline⟩ := hopens
  obtain ⟨limit, honce⟩ := once_of_asksBalances ⟨⟨label, hcall⟩, spec, hline⟩
  obtain ⟨ex, hlines, -⟩ := honce.once
  have hmem := mem_linesOf.mpr hline
  rw [hlines] at hmem
  obtain ⟨-, rfl⟩ := Prod.mk.inj (List.mem_singleton.mp hmem)
  exact matcher_of_line heq he hline

end Broker

/-- The default stands in for nothing only. -/
theorem Call.kindsOrDefault_of_ne_nil {kinds : List Int} (h : kinds ≠ []) :
    kindsOrDefault kinds = kinds :=
  if_neg (mt List.isEmpty_iff.mp h)

open Broker in
/-- **The kinds of a query.** A text lists the kinds that are integers of 64 bits between its
commas, up to blanks around them, in their order, and if there are none the default ones; so it
never lists none at all, and kinds that are written as a text, with any blanks around them and
anything else between them, are read back. Whatever kinds a query asks for, the broker asks the
venue for these, and every exchange that is opened for it reads from its answer the balances of
these kinds and no others. -/
theorem query_kinds :
    (∀ raw, kindsOf raw ≠ []) ∧ kindsOf none = defaultKinds ∧
    (∀ s, (∃ parts kinds, Text.Parts s parts ∧ Lists parts kinds) ∧
      ∀ parts kinds, Text.Parts s parts → Lists parts kinds →
        kindsOf (some s) = if kinds = [] then defaultKinds else kinds) ∧
    (∀ kinds parts, kinds ≠ [] → Renders kinds parts →
      kindsOf (some (",".intercalate parts)) = kinds) ∧
    ∀ kinds, Queried kinds → kinds ≠ [] ∧
      (∀ {ρ : Type} (b : Broker ρ), (b.prepare (.balances kinds)).2.2.Always fun spec _ _ =>
        spec.request = (Frame.balances kinds).toJson ∧ spec.matcher = Answer.toBalances kinds) ∧
      (∀ {ρ : Type} (config : VenueConfig) (session : SessionScript)
        (responders : List Responder) (deeds : List (Deed ρ)) (k : Nat) (label : String)
        (tell : CallResult → ρ) (e : Entry Answer),
        (start config session responders).Brought deeds k (.call label (.balances kinds) tell) →
        (start config session responders).Opens deeds k e →
          e.matcher = Answer.toBalances kinds) ∧
      ∀ raw entries, listed? raw = some entries →
        extract raw kinds = (entries.map ofEntry).filter (·.kind ∈ kinds) := by
  refine ⟨kindsOf_ne_nil, rfl, fun s => ⟨?_, fun _ _ => kindsOf_eq⟩,
    fun _ _ hne h => kindsOf_of_renders h hne, fun kinds hqueried => ?_⟩
  · obtain ⟨parts, hparts⟩ := exists_parts s
    exact ⟨parts, _, hparts, lists_iff.mpr rfl⟩
  · obtain ⟨raw, rfl⟩ := exists_text_of_queried hqueried
    have hne := kindsOf_ne_nil raw
    have hself := Call.kindsOrDefault_of_ne_nil hne
    refine ⟨hne, fun b => ?_,
      fun config session responders deeds k label tell e hcall hopens => ?_,
        fun _ _ hlisted => extract_of_listed hlisted hne⟩
    · have halways := b.always_of_balances (kindsOf raw)
      rwa [hself] at halways
    · have hmatcher := matcher_of_opens hcall hopens
      rwa [hself] at hmatcher

/-- A query for the kinds 4 and 1, with something else in its list. -/
def mixedQuery : Http.Request where
  method := .get
  target := "/api/balance?types=%204,real,,%2B1"
  contentType := none
  body := ""

open Broker in
/-- One caller asks for balances of these kinds, and waits. -/
def askingKinds : List (Deed CallResult) :=
  [.call "a" (.balances [4, 1]) id, .advance 150]

open Broker in
/-- The kinds of the query are those of the text that it carries, which may be written in
another way; the exchange that is opened for them takes the balances of these kinds, and no
others are read from a message. -/
theorem mixedQuery_kinds : Queried [4, 1] ∧ kindsOf (some " 4,real,,+1") = [4, 1] ∧
    kindsOf (some (",".intercalate [" 4", "real", "1"])) = [4, 1] ∧
    (∃ e, Service.fresh.Opens askingKinds 0 e ∧ e.matcher = Answer.toBalances [4, 1]) ∧
    (extract Service.snapshot [4, 1]).map Balance.id = [7, 8] := by
  obtain ⟨-, -, hread, hwritten, hqueries⟩ := query_kinds
  have hqueried : Queried [4, 1] := .http mixedQuery rfl
  have hparts : Text.Parts " 4,real,,+1" [" 4", "real", "", "+1"] :=
    ⟨by decide, by decide, by decide⟩
  have hlists : Lists [" 4", "real", "", "+1"] [4, 1] := lists_iff.mpr (by decide)
  have hrenders : Renders [4, 1] [Text.spaced [' '] [] 4, "real", Text.spaced [] [] 1] :=
    .kind (by decide) (List.forall_mem_singleton.mpr (by decide)) (by simp)
      (.other (by decide) (kindIn?_eq_none_iff.mp (by decide))
        (.kind (by decide) (by simp) (by simp) .nil))
  obtain ⟨-, -, hmatchers, hextract⟩ := hqueries _ hqueried
  have hopen :
      ((Service.fresh.board.after (Service.fresh.history askingKinds)).midst
        0).correlator.pendingIds =
      [0] := by decide +kernel
  have hledger : (Service.fresh.ledger askingKinds).map Prod.fst = [0] := by decide +kernel
  obtain ⟨e, he, hid⟩ := List.mem_map.mp (hopen ▸ List.mem_singleton_self 0 : _)
  obtain ⟨⟨_, spec⟩, _, hlines, rfl, -⟩ := List.map_eq_cons_iff.mp hledger
  have hopens : Service.fresh.Opens askingKinds 0 e :=
    ⟨⟨_, [], 0, (List.append_nil _).symm, he⟩, spec, by rw [hid, hlines]; rfl⟩
  refine ⟨hqueried, (hread _).2 _ _ hparts hlists, ?_, ⟨e, hopens, ?_⟩, ?_⟩
  · exact hwritten [4, 1] _ (by decide) hrenders
  · exact hmatchers {} Service.loggedIn [] askingKinds 0 "a" id e
      ⟨[], askingKinds.drop 1, rfl, rfl⟩ hopens
  · rw [hextract Service.snapshot _ rfl]
    decide

end VenueLink

import VenueLink.Proofs.Broker.EarlyExit
import VenueLink.Proofs.Store.Groups

/-!
# Daily results in a course

Of all that is done to a broker only the writing of a daily result touches its table of them,
and only while the stores do not fail (`results_course`). So the table is always that of the
results written so far, and what is said of such tables holds of every listing, be it asked for
directly or over HTTP.

## Main results

* `Broker.results_course`: the table of daily results after a course.
* `Service.responds_listResults`: the response to a request for daily results.
* `Service.listing_is_of_latest`: listings, and the responses with them, at any time of a
  course.
-/

namespace VenueLink

open Exchange Switchboard

namespace Broker

variable {ρ : Type}

/-! ### What changes the table -/

/-- Orders that are saved are no results. -/
theorem results_foldl_save (kept : List Order.Details) (b : Broker ρ) :
    (kept.foldl save b).results = b.results := by
  have hsave : ∀ (b : Broker ρ) (d : Order.Details), (b.save d).results = b.results := by
    intro b d
    rw [save]
    cases b.storeFailure <;> rfl
  induction kept generalizing b with
  | nil => rfl
  | cons d rest ih => rw [List.foldl_cons, ih, hsave]

/-- Nor does a tick write any. -/
theorem results_tick (b : Broker ρ) (t : Switchboard.Step Answer ρ) :
    (b.tick t).results = b.results := by
  rw [tick, results_foldl_save]

/-- Nor does a call. -/
theorem results_call (b : Broker ρ) (label : String) (c : Call) (tell : CallResult → ρ) :
    (b.call label c tell).results = b.results := by
  obtain ⟨session, heq⟩ := b.prepare_eq c
  have hprepare : (b.prepare c).1.results = b.results := by rw [heq]
  exact (results_tick _ _).trans hprepare

/-- The daily results that a deed writes: one, or none where the stores fail. -/
def writes (b : Broker ρ) : Deed ρ → List DailyResult
  | .upsert result => if b.storeFailure.isNone then [result] else []
  | _ => []

/-- The daily results written in a course, the first one first. -/
def written (b : Broker ρ) : List (Deed ρ) → List DailyResult
  | [] => []
  | d :: rest => b.writes d ++ (b.follow d).written rest

/-- A deed writes the results that it brings. -/
theorem results_follow (b : Broker ρ) (d : Deed ρ) :
    (b.follow d).results = (b.writes d).foldl ResultTable.upsert b.results := by
  cases d with
  | call label c tell => exact results_call b label c tell
  | upsert result =>
    rw [follow, upsertResult, withStores, writes]
    cases b.storeFailure <;> rfl
  | session script => rfl
  | stores failure => rfl
  | _ => exact results_tick b _

/-- So do any deeds. -/
theorem results_course (b : Broker ρ) (deeds : List (Deed ρ)) :
    (b.course deeds).results = (b.written deeds).foldl ResultTable.upsert b.results := by
  induction deeds generalizing b with
  | nil => rfl
  | cons d rest ih =>
    have hrest := ih (b.follow d)
    rw [results_follow, ← List.foldl_append] at hrest
    exact hrest

/-- The table has what was written in the course. -/
theorem results_course_start (config : VenueConfig) (session : SessionScript)
    (responders : List Responder) (deeds : List (Deed ρ)) :
    ((start config session responders).course deeds).results =
      .ofWrites ((start config session responders).written deeds) :=
  results_course _ deeds

/-- A store that does not fail lists the table. -/
theorem listResults_eq {b : Broker ρ} (hstore : b.storeFailure = none) (account : Option String)
    (date : Option Date) : b.listResults account date = .ok (b.results.list account date) := by
  rw [listResults, withStores, hstore]

/-- And writes into it. -/
theorem upsertResult_eq {b : Broker ρ} (hstore : b.storeFailure = none) (result : DailyResult) :
    b.upsertResult result = ({ b with results := b.results.upsert result }, .ok result) := by
  rw [upsertResult, withStores, hstore]

/-- At any time of a course a reply is given at once, and nothing else happens. -/
theorem reply_course (config : VenueConfig) (session : SessionScript)
    (responders : List Responder) (deeds : List (Deed ρ)) (label : String) (r : ρ) :
    ((start config session responders).course deeds).reply label r =
      ((start config session responders).course deeds).answering label r := by
  have hord := orderly_board_start (ρ := ρ) config session responders
  exact tick_report (after_history_course hord deeds ▸ hord.after _)
    (restful_course config session responders deeds)
    (quiet_course hord (quiet_board_start config session responders) deeds) label r

end Broker

namespace Service

open Broker ResultTable DailyResult

/-- The service answers a request with a response, at once and to nobody else. -/
def Responds (s : Service) (label : String) (r : Http.Request) (response : Http.Response) :
    Prop :=
  (s.serve label r).board.reports =
    s.board.reports ++ [⟨s.board.now, label, .response response⟩]

/-- A request has one response. -/
theorem Responds.unique {s : Service} {label : String} {r : Http.Request}
    {response response' : Http.Response} (h : s.Responds label r response)
    (h' : s.Responds label r response') : response = response' := by
  have hreport := List.append_cancel_left (h.symm.trans h')
  rw [List.singleton_inj] at hreport
  cases hreport
  rfl

section Course

variable {config : VenueConfig} {session : SessionScript} {responders : List Responder}
  {deeds : List (Deed Delivered)}

/-- A request for daily results is answered with those that there are, by account. -/
theorem responds_listResults
    (hstore : ((start config session responders).course deeds).storeFailure = none)
    {r : Http.Request} {account : Option String} {date : Option Date}
    (hmethod : r.method = .get) (haction : r.action = .listResults account date)
    (label : String) :
    Responds ((start config session responders).course deeds) label r (.ok (groupsJson
      (groupByAccount
        (((start config session responders).course deeds).results.list account date)))) := by
  have hserve : serve ((start config session responders).course deeds) label r =
      ((start config session responders).course deeds).reply label (.response (.ok (groupsJson
        (groupByAccount
          (((start config session responders).course deeds).results.list account date))))) := by
    rw [serve]
    dsimp only
    rw [haction]
    dsimp only
    rw [listResults_eq hstore, Http.Request.finish, hmethod, if_neg (by decide)]
    rfl
  rw [Responds, hserve, reply_course]
  rfl

end Course

/-- **Listings of daily results.** At any time of a course, whatever has been written and listed
in it before, a listing of the daily results has, for each account and day that was ever written
and is asked for, exactly one row, the last one written, and no other rows; it goes by account,
and from the newest day of an account to its oldest. One more write changes nothing for other
accounts and days. A request for the same results over HTTP is answered with an object that has
one field for each account, in increasing order, whose rows go strictly from later to earlier
days; the rows of all fields, one field after the other, are the listing. -/
theorem listing_is_of_latest (config : VenueConfig) (session : SessionScript)
    (responders : List Responder) (deeds : List (Deed Delivered)) (account : Option String)
    (date : Option Date) :
    let b : Service := start config session responders
    (b.course deeds).storeFailure = none →
      ∃ rows, (b.course deeds).listResults account date = .ok rows ∧
        (∀ r, r ∈ rows ↔ IsLatest (b.written deeds) r ∧ isWanted account date r = true) ∧
        (∀ w ∈ b.written deeds, isWanted account date w = true →
          ∃ r, rows.filter (sameKey w) = [r] ∧ IsLatest (b.written deeds) r) ∧
        rows.Pairwise Above ∧
        (∀ w, ∃ rows',
          ((b.course deeds).upsertResult w).1.listResults account date = .ok rows' ∧
          ∀ r, sameKey r w = false → (r ∈ rows' ↔ r ∈ rows)) ∧
        ∀ r label, r.method = .get → r.action = .listResults account date →
          ∃ groups, Responds (b.course deeds) label r (.ok (groupsJson groups)) ∧
            (groups.Pairwise fun g g' => g.1 < g'.1) ∧
            (∀ g ∈ groups, g.2 ≠ [] ∧
              g.2.Pairwise fun row row' => row'.date.before row.date = true) ∧
            ungroup groups = rows := by
  intro b hstore
  have htable : (b.course deeds).results = .ofWrites (b.written deeds) :=
    results_course_start config session responders deeds
  have hkeyed := keyed_ofWrites (b.written deeds)
  have habove := pairwise_list hkeyed account date
  refine ⟨(ofWrites (b.written deeds)).list account date, ?_, fun r => ?_,
    fun w hw hwanted => filter_list hw hwanted, habove, fun w => ?_,
      fun r label hmethod haction => ?_⟩
  · rw [listResults_eq hstore, htable]
  · rw [mem_list_iff, mem_ofWrites_iff]
  · have hlist := listResults_eq
      (b := { b.course deeds with results := (b.course deeds).results.upsert w }) hstore account
        date
    rw [upsertResult_eq hstore]
    refine ⟨_, hlist, fun r hne => ?_⟩
    have hrw : r ≠ w := by
      rintro rfl
      rw [sameKey_refl] at hne
      cases hne
    rw [htable, mem_list_iff, mem_list_iff, upsert, mem_put_iff hkeyed]
    simp [hrw, hne]
  · refine ⟨_, htable ▸ responds_listResults hstore hmethod haction label,
      pairwise_groupByAccount _, fun g hg => ?_, ungroup_groups habove⟩
    obtain ⟨hrows, hne⟩ := (mem_groups_iff habove).mp hg
    exact ⟨hne, hrows ▸ pairwise_rowsOf habove g.1⟩

/-- Two days of August. -/
def eleventh : Date := ⟨2025, 8, 11, by decide⟩
def twelfth : Date := ⟨2025, 8, 12, by decide⟩

/-- A day of an account on which it won a number of times. -/
def winsOn (date : Date) (account : String) (win : Nat) : DailyResult :=
  ⟨date, account, ⟨win, 0, 0, 0, 0, 0, 0⟩⟩

/-- Two days of one account and one of another are written, and one of them is written once
more. -/
def rewriting : List (Deed Delivered) :=
  [.upsert (winsOn twelfth "demo-1" 1), .upsert (winsOn twelfth "real-1" 2),
    .upsert (winsOn eleventh "demo-1" 3), .upsert (winsOn twelfth "demo-1" 4)]

/-- The day that was written twice is listed once, as it was written last. -/
theorem rewritten_day_is_listed :
    let b : Service := start {} loggedIn []
    let rows := [winsOn twelfth "demo-1" 4, winsOn eleventh "demo-1" 3]
    (b.course rewriting).listResults (some "demo-1") none = .ok rows ∧
      (∀ r, r ∈ rows ↔
        IsLatest (b.written rewriting) r ∧ isWanted (some "demo-1") none r = true) ∧
      ∃ groups, ungroup groups = rows ∧
        Responds (b.course rewriting) "a" ⟨.get, "/api/results?account=demo-1", none, ""⟩
          (.ok (groupsJson groups)) := by
  intro b rows
  obtain ⟨rows', hlist, hmem, -, -, -, hgroups⟩ :=
    listing_is_of_latest {} loggedIn [] rewriting (some "demo-1") none rfl
  have hresults : (b.course rewriting).results.rows =
      [winsOn twelfth "demo-1" 4, winsOn twelfth "real-1" 2, winsOn eleventh "demo-1" 3] := by
    decide +kernel
  have hrows : (b.course rewriting).results.list (some "demo-1") none = rows := by
    rw [list, hresults]
    exact List.mergeSort_of_pairwise (by decide +kernel)
  obtain rfl : rows = rows' :=
    Except.ok.inj ((hrows ▸ (listResults_eq rfl _ _).symm).trans hlist)
  obtain ⟨groups, hresponds, -, -, hungroup⟩ :=
    hgroups ⟨.get, "/api/results?account=demo-1", none, ""⟩ "a" rfl rfl
  exact ⟨hlist, hmem, groups, hungroup, hresponds⟩

end Service

end VenueLink

import VenueLink.Proofs.Broker.Results
import VenueLink.Proofs.Http.ResultRequests

/-!
# Results that are read back

A daily result that was sent over HTTP and accepted stays in the table until another one of its
account and day is sent, and so it is in the response to a request for them. It is kept for its
account without the blanks around it, though, and a request is for the account as it is written:
a result that was sent with blanks around its account is found only without them.

## Main results

* `Service.results_step`: what a step of a service does to the table of daily results.
* `Service.mem_results_run`: a row stays until another one of its account and day is sent.
* `Service.own_write_is_listed`: the responses to requests for a result that was accepted.
-/

namespace VenueLink

open Broker DailyResult Http

namespace ResultTable

/-- One row for each account and day, and no blanks around the accounts. -/
structure Tidy (table : ResultTable) : Prop where
  keyed : Keyed table.rows
  trimmed : ∀ r ∈ table.rows, Text.trim r.account = r.account

/-- A row with a plain account keeps the table tidy. -/
theorem Tidy.upsert {table : ResultTable} (h : table.Tidy) {w : DailyResult}
    (hw : Text.trim w.account = w.account) : (table.upsert w).Tidy where
  keyed := keyed_put h.keyed w
  trimmed r hr := by
    rcases (mem_put_iff h.keyed).mp hr with rfl | ⟨hr, -⟩
    · exact hw
    · exact h.trimmed r hr

/-- The listing of an account and day that there is a row of. -/
theorem list_of_mem {table : ResultTable} (h : Keyed table.rows) {r : DailyResult}
    (hr : r ∈ table.rows) : table.list (some r.account) (some r.date) = [r] := by
  have hwanted : isWanted (some r.account) (some r.date) = sameKey r := by
    funext x
    rw [Bool.eq_iff_iff, sameKey_iff]
    simp [isWanted, and_comm]
  rw [list, hwanted, Keyed.filter_eq h hr (sameKey_refl r), List.mergeSort_singleton]

/-- The listing of an account that no row is of. -/
theorem list_of_not_mem {table : ResultTable} {account : String}
    (h : ∀ r ∈ table.rows, r.account ≠ account) (date : Option Date) :
    table.list (some account) date = [] := by
  refine List.eq_nil_iff_forall_not_mem.mpr fun r hr => ?_
  obtain ⟨hr, hwanted⟩ := mem_list_iff.mp hr
  have haccount : account = r.account := by
    simp only [isWanted, Option.all_some, Bool.and_eq_true, decide_eq_true_eq] at hwanted
    exact hwanted.1
  exact h r hr haccount.symm

end ResultTable

namespace Service

open ResultTable

/-! ### What a step does to the table -/

/-- A step either leaves the table as it is, or it is a request to keep a result, which is put
in the table. -/
theorem results_step (s : Service) (t : Step) : (s.step t).results = s.results ∨
    ∃ label r result, t = .http label r ∧ r.Writes result ∧
      (s.step t).results = s.results.upsert result.trimmed := by
  cases t with
  | call label c => exact .inl (results_call s label c _)
  | session script => exact .inl rfl
  | stores failure => exact .inl rfl
  | wire c => exact .inl (results_tick s _)
  | advance duration => exact .inl (results_tick s _)
  | http label r =>
    rw [step, serve]
    dsimp only
    cases haction : r.action with
    | call c => exact .inl (results_call s label c _)
    | upsertResult w =>
      obtain ⟨result, hwrites, rfl⟩ := Request.exists_writes haction
      dsimp only
      rw [reply, results_tick, upsertResult, withStores]
      cases s.storeFailure with
      | some e => exact .inl rfl
      | none => exact .inr ⟨label, r, result, rfl, hwrites, rfl⟩
    | _ => exact .inl (results_tick s _)

/-- So does a step of the service. -/
theorem tidy_step {s : Service} (h : s.results.Tidy) (t : Step) : (s.step t).results.Tidy := by
  rcases s.results_step t with heq | ⟨label, r, result, -, -, heq⟩
  · exact heq ▸ h
  · exact heq ▸ h.upsert (Text.trim_trim _)

/-- And a run. -/
theorem tidy_run {s : Service} (h : s.results.Tidy) (steps : List Step) :
    (s.run steps).results.Tidy := by
  induction steps generalizing s with
  | nil => exact h
  | cons t rest ih => exact ih (tidy_step h t)

/-- A row stays until another one of its account and day is sent. -/
theorem mem_results_run {s : Service} (h : s.results.Tidy) {row : DailyResult}
    (hrow : row ∈ s.results.rows) {steps : List Step} (hothers : ∀ label r other,
      .http label r ∈ steps → r.Writes other → sameKey other.trimmed row = false) :
    row ∈ (s.run steps).results.rows := by
  induction steps generalizing s with
  | nil => exact hrow
  | cons t rest ih =>
    refine ih (tidy_step h t) ?_ fun label r other hr =>
      hothers label r other (List.mem_cons_of_mem t hr)
    rcases s.results_step t with heq | ⟨label, r, other, rfl, hwrites, heq⟩
    · exact heq ▸ hrow
    · have hne := hothers label r other List.mem_cons_self hwrites
      rw [sameKey_comm] at hne
      rw [heq]
      exact (mem_put_iff h.keyed).mpr (.inr ⟨hrow, hne⟩)

/-! ### Responses -/

section Course

variable {config : VenueConfig} {session : SessionScript} {responders : List Responder}
  {deeds : List (Deed Delivered)} {r : Request} {result : DailyResult}

/-- The response to a request to keep a result. -/
theorem responds_writes (h : r.Writes result) (label : String) :
    Responds ((start config session responders).course deeds) label r
      (if Text.trim result.account = "" then .badRequest "account is required"
        else .ofStore (fun row => .ok row.toJson)
          (((start config session responders).course deeds).upsertResult
            result.trimmed).2) := by
  have hfinish : ∀ response, r.finish response = response := fun response => by
    rw [Request.finish, h.method, if_neg (by decide)]
  rw [Responds, serve, Request.action_of_writes h]
  by_cases hblank : Text.trim result.account = ""
  · rw [if_pos hblank, if_pos hblank]
    dsimp only
    rw [hfinish, reply_course]
    rfl
  · have hkept :
        (((start config session responders).course deeds).upsertResult result.trimmed).1 =
        (start config session responders).course (deeds ++ [.upsert result.trimmed]) := by
      rw [course_append]
      rfl
    have hboard :
        (((start config session responders).course deeds).upsertResult result.trimmed).1.board =
        ((start config session responders).course deeds).board := by
      rw [upsertResult, withStores]
      cases ((start config session responders).course deeds).storeFailure <;> rfl
    rw [if_neg hblank, if_neg hblank]
    dsimp only
    rw [hfinish, ← hboard, hkept, reply_course]
    rfl

/-- A result is accepted only for an account, and only while the stores do not fail. -/
theorem of_accepted (h : r.Writes result) {label : String} {response : Response}
    (hresponds : Responds ((start config session responders).course deeds) label r response)
    (hstatus : response.status = 200) : Text.trim result.account ≠ "" ∧
      ((start config session responders).course deeds).storeFailure = none := by
  rw [hresponds.unique (responds_writes h label)] at hstatus
  split at hstatus
  · cases hstatus
  next hne =>
    refine ⟨hne, ?_⟩
    rw [upsertResult, withStores] at hstatus
    cases hfailure : ((start config session responders).course deeds).storeFailure with
    | none => rfl
    | some e =>
      rw [hfailure] at hstatus
      cases hstatus

end Course

/-- What a request to keep a result does to the table. -/
theorem results_writes {s : Service} {r : Request} {result : DailyResult} (h : r.Writes result)
    (hne : Text.trim result.account ≠ "") (hstore : s.storeFailure = none) (label : String) :
    (s.step (.http label r)).results = s.results.upsert result.trimmed := by
  rw [step, serve, Request.action_of_writes h, if_neg hne]
  dsimp only
  rw [upsertResult_eq hstore]
  exact results_tick _ _

/-- One row makes one group. -/
theorem groupByAccount_singleton (r : DailyResult) :
    groupByAccount [r] = [(r.account, [r.row])] := by
  simp [groupByAccount, addRow]

/-- The table of a service is tidy. -/
theorem tidy_run_start (config : VenueConfig) (session : SessionScript)
    (responders : List Responder) (steps : List Step) :
    (run (start config session responders) steps).results.Tidy :=
  tidy_run (s := start config session responders)
    ⟨List.Pairwise.nil, fun _ hr => absurd hr List.not_mem_nil⟩ steps

/-- A result that is accepted is in the table until another one of its account and day is sent.
-/
theorem mem_results_of_accepted {config : VenueConfig} {session : SessionScript}
    {responders : List Responder} {before after : List Step} {label : String} {post : Request}
    {result : DailyResult} {response : Response} (hpost : post.Writes result)
    (hresponds : Responds (run (start config session responders) before) label post response)
    (hstatus : response.status = 200)
    (hafter : ∀ label r other, .http label r ∈ after → r.Writes other →
      sameKey other.trimmed result.trimmed = false) :
    Text.trim result.account ≠ "" ∧ result.trimmed ∈
      (run (start config session responders)
        (before ++ .http label post :: after)).results.rows := by
  obtain ⟨deeds, hcourse, -⟩ := course_run (start config session responders) before
  have htidy := tidy_run_start config session responders before
  have hrun : run (start config session responders) (before ++ .http label post :: after) =
      run (step (run (start config session responders) before) (.http label post)) after :=
    List.foldl_append
  rw [hrun]
  rw [hcourse] at hresponds htidy ⊢
  obtain ⟨hne, hstore⟩ := of_accepted hpost hresponds hstatus
  refine ⟨hne, mem_results_run (tidy_step htidy _) ?_ hafter⟩
  rw [results_writes hpost hne hstore]
  exact (mem_put_iff htidy.keyed).mpr (.inl rfl)

/-- **Own writes.** Let a result be sent over HTTP and accepted, whatever has happened before,
and let no other result of its account and day be sent after it, whatever else happens. A
request for the day and the account as it was sent is answered with the group of the account,
which has the row and no other, if there were no blanks around the account, and with no group
otherwise; a request for the account without the blanks is answered with the row in any case. -/
theorem own_write_is_listed (config : VenueConfig) (session : SessionScript)
    (responders : List Responder) (before after : List Step) {label : String} {post : Request}
    {result : DailyResult} (hpost : post.Writes result) :
    let s : Service := start config session responders
    let s' := s.run (before ++ .http label post :: after)
    (∃ response, Responds (s.run before) label post response ∧ response.status = 200) →
      (∀ label r other, .http label r ∈ after → r.Writes other →
        sameKey other.trimmed result.trimmed = false) →
      s'.storeFailure = none →
        (∀ label get, get.Asks result.account result.date →
          Responds s' label get (.ok (groupsJson
          (if Text.trim result.account =
            result.account then [(result.account, [result.row])] else [])))) ∧
        ∀ label get, get.Asks (Text.trim result.account) result.date →
          Responds s' label get
            (.ok (groupsJson [(Text.trim result.account, [result.row])])) := by
  intro s s' ⟨response, hresponds, hstatus⟩ hafter hstore
  obtain ⟨hne, hmem⟩ := mem_results_of_accepted hpost hresponds hstatus hafter
  have htidy : s'.results.Tidy := tidy_run_start config session responders _
  have hlist :
      s'.results.list (some (Text.trim result.account)) (some result.date) = [result.trimmed] :=
    list_of_mem (r := result.trimmed) htidy.keyed hmem
  obtain ⟨deeds, hcourse, -⟩ := course_run s (before ++ .http label post :: after)
  have hs' : s' = (start config session responders).course deeds := hcourse
  have hlisted : ∀ label get account, account ≠ "" → get.Asks account result.date →
      Responds s' label get
        (.ok (groupsJson
          (groupByAccount (s'.results.list (some account) (some result.date))))) := by
    intro label get account hne hasks
    rw [hs'] at hstore ⊢
    exact responds_listResults hstore hasks.method (Request.action_of_asks hasks hne) label
  constructor
  · intro label get hasks
    have hsome : result.account ≠ "" := by
      intro hempty
      rw [hempty] at hne
      exact hne rfl
    have hresponds := hlisted label get result.account hsome hasks
    split
    next htrim =>
      rw [htrim] at hlist
      rw [hlist, groupByAccount_singleton, trimmed, htrim] at hresponds
      exact hresponds
    next hblank =>
      have hnone : s'.results.list (some result.account) (some result.date) = [] := by
        refine list_of_not_mem (fun r hr heq => hblank ?_) _
        rw [← heq]
        exact htidy.trimmed r hr
      rw [hnone] at hresponds
      exact hresponds
  · intro label get hasks
    have hresponds := hlisted label get _ hne hasks
    rw [hlist, groupByAccount_singleton] at hresponds
    exact hresponds

/-- A request to keep three wins of an account on the twelfth of August. -/
def sending (account : String) : Request where
  method := .post
  target := "/api/results/upsert"
  contentType := some "application/json"
  body := "\x7b\"date\":\"2025-08-12\",\"account\":\"" ++ account ++ "\",\"win\":3\x7d"

/-- A result is sent for an account without blanks, and one for another account after it. -/
theorem plain_account_is_listed :
    let s : Service := start {} loggedIn []
    (sending "demo-1").Writes (winsOn twelfth "demo-1" 3) ∧
      Responds (s.run [.http "a" (sending "demo-1"), .http "b" (sending "real-1")]) "c"
        (Request.listing "demo-1" twelfth)
        (.ok (groupsJson [("demo-1", [(winsOn twelfth "demo-1" 3).row])])) := by
  intro s
  have hpost : (sending "demo-1").Writes (winsOn twelfth "demo-1" 3) :=
    ⟨rfl, by decide +kernel, by decide +kernel, by decide +kernel⟩
  have hother : (sending "real-1").Writes (winsOn twelfth "real-1" 3) :=
    ⟨rfl, by decide +kernel, by decide +kernel, by decide +kernel⟩
  have htrim : Text.trim "demo-1" = "demo-1" := by decide +kernel
  have hlisted := own_write_is_listed {} loggedIn [] [] [.http "b" (sending "real-1")] hpost
    ⟨_, @responds_writes {} loggedIn [] [] _ _ hpost "a", by decide +kernel⟩
    (fun label r other hr hwrites => by
      cases List.mem_singleton.mp hr
      rw [hwrites.unique hother]
      decide +kernel) (by decide +kernel)
  exact ⟨hpost, htrim ▸ hlisted.2 "c" _ (htrim.symm ▸ Request.asks_listing "demo-1" twelfth)⟩

/-- A result that is sent for an account with blanks around it is accepted, and a request for
that account is answered without it. -/
theorem blanks_hide_result :
    let s : Service := start {} loggedIn []
    let result := winsOn twelfth " demo-1 " 3
    (sending " demo-1 ").Writes result ∧
      (∃ response, Responds s "a" (sending " demo-1 ") response ∧ response.status = 200) ∧
      (Request.listing " demo-1 " twelfth).Asks result.account result.date ∧
      ¬∃ groups, Responds (s.run [.http "a" (sending " demo-1 ")]) "b"
        (Request.listing " demo-1 " twelfth) (.ok (groupsJson groups)) ∧
        ∃ g ∈ groups, result.row ∈ g.2 := by
  intro s result
  have hpost : (sending " demo-1 ").Writes result :=
    ⟨rfl, by decide +kernel, by decide +kernel, by decide +kernel⟩
  have hasks := Request.asks_listing " demo-1 " twelfth
  refine ⟨hpost, ⟨_, @responds_writes {} loggedIn [] [] _ _ hpost "a", by decide +kernel⟩,
    hasks, ?_⟩
  rintro ⟨groups, hresponds, g, hg, -⟩
  obtain ⟨deeds, hcourse, -⟩ := course_run s [.http "a" (sending " demo-1 ")]
  have hnone : (s.run [.http "a" (sending " demo-1 ")]).results.list (some " demo-1 ")
      (some twelfth) = [] :=
    list_of_not_mem (by decide +kernel) _
  have hstore : (s.run [.http "a" (sending " demo-1 ")]).storeFailure = none := by
    decide +kernel
  rw [hcourse] at hresponds hnone hstore
  have hempty := responds_listResults hstore hasks.method
    (Request.action_of_asks hasks (by decide)) "b"
  rw [hnone] at hempty
  have hjson : groupsJson groups = .object [] :=
    Body.json.inj (congrArg Response.body (hresponds.unique hempty))
  rw [List.map_eq_nil_iff.mp (Json.object.inj hjson)] at hg
  cases hg

end Service

end VenueLink

import VenueLink.Proofs.Calendar.ReadBack
import VenueLink.Proofs.Http.Query
import VenueLink.Proofs.Http.Routes

/-!
# Requests about daily results

A request for the daily results of an account and a day names both in its query, and every
account and day can be named so (`Request.asks_listing`). A request to keep a daily result has
it in its body; the account that it is kept for is the one in the body without the blanks around
it, while the account that is asked for is taken as it is.

## Main results

* `Request.action_of_asks`: what a request for the daily results of an account and a day asks
  for.
* `Request.asks_listing`: every account and day can be asked for.
* `Request.action_of_writes`, `Request.exists_writes`: which requests make the service keep a
  daily result.
-/

namespace VenueLink

/-- A result as it is kept: for its account without the blanks around it. -/
def DailyResult.trimmed (result : DailyResult) : DailyResult :=
  { result with account := Text.trim result.account }

namespace Http.Request

/-! ### Requests for daily results -/

/-- The request asks for the daily results of an account and a day. -/
structure Asks (r : Request) (account : String) (date : Date) : Prop where
  method : r.method = .get
  path : r.path = "/api/results".toList
  account : Form.value? "account" (Form.fields r.query) = some (some account)
  date : ∃ text, Form.value? "date" (Form.fields r.query) = some (some text) ∧
    Date.ofQuery? text = some date

/-- A request for an account and a date is answered with the listing of both. -/
theorem action_of_asks {r : Request} {account : String} {date : Date} (h : r.Asks account date)
    (hne : account ≠ "") : r.action = .listResults (some account) (some date) := by
  obtain ⟨text, htext, hdate⟩ := h.date
  have hroute : Route.ofPath? r.path = some .results := by
    rw [h.path]
    rfl
  have htextne : text ≠ "" := by
    rintro rfl
    cases hdate
  have hmethod : r.method ∈ Route.results.allowed := by
    rw [h.method]
    decide
  rw [action, hroute, if_neg (by rw [h.method]; decide)]
  dsimp only
  rw [if_pos hmethod, actionOn, listResults, fields, field, h.account]
  dsimp only
  rw [field, htext]
  dsimp only
  rw [Option.filter_some, Option.filter_some, if_pos (by simpa using htextne),
    if_pos (by simpa using hne)]
  dsimp only
  rw [hdate]

/-- The request for the daily results of an account and a day, with both percent-encoded. -/
def listing (account : String) (date : Date) : Request where
  method := .get
  target := String.ofList ("/api/results?account=".toList ++ Form.encodeValue account ++
    "&date=".toList ++ Form.encodeValue date.text)
  contentType := none
  body := ""

section Listing

variable (account : String) (date : Date)

/-- The address of such a request has both as parameters. -/
theorem address_listing : (listing account date).address = "/api/results".toList ++
    '?' :: ("account=".toList ++ Form.encodeValue account ++ "&date=".toList ++
      Form.encodeValue date.text) := by
  have hhash : ∀ s : String, ∀ c ∈ Form.encodeValue s, (c != '#') = true := fun s c hc => by
    rw [bne_iff_ne]
    rintro rfl
    exact Form.not_mem_encodeValue (by decide) (by unfold Form.IsHexDigit; decide) hc
  rw [address, listing, String.toList_ofList, List.takeWhile_eq_self_iff.mpr]
  · simp
  · intro c hc
    simp only [List.mem_append] at hc
    rcases hc with ((hc | hc) | hc) | hc
    · revert c
      simp
    · exact hhash _ c hc
    · revert c
      simp
    · exact hhash _ c hc

/-- Its path is that of results. -/
theorem path_listing : (listing account date).path = "/api/results".toList := by
  rw [path, address_listing]
  exact (Form.span_append (by simp) _ (by decide) _).1

/-- Its query is what stands after the path. -/
theorem query_listing : (listing account date).query.toList =
    ("account=".toList ++ Form.encodeValue account) ++ '&' ::
      ("date=".toList ++ Form.encodeValue date.text) := by
  have hfront : ∀ c ∈ "/api/results".toList, (c != '?') = true := by simp
  rw [query, address_listing, (Form.span_append hfront _ (by decide) _).2, String.toList_ofList]
  simp

/-- The parameters are read back. -/
theorem fields_listing :
    Form.fields (listing account date).query = [("account", account), ("date", date.text)] := by
  have hfront : ∀ (s : String) (name : List Char), '&' ∉ name →
      '&' ∉ name ++ Form.encodeValue s :=
    fun s name hname => by
      rw [List.mem_append, not_or]
      exact ⟨hname, Form.not_mem_encodeValue (by decide) (by unfold Form.IsHexDigit; decide)⟩
  have haccount :
      ∀ s, Form.field ("account=".toList ++ Form.encodeValue s) = ("account", s) := fun s => by
    rw [show "account=".toList = "account".toList ++ ['='] by simp, List.append_assoc]
    exact Form.field_append (by simp) s
  have hdate :
      ∀ s, Form.field ("date=".toList ++ Form.encodeValue s) = ("date", s) := fun s => by
    rw [show "date=".toList = "date".toList ++ ['='] by simp, List.append_assoc]
    exact Form.field_append (by simp) s
  rw [Form.fields, query_listing, Text.splitOn_append (hfront _ _ (by simp)),
    Text.splitOn_of_not_mem (hfront _ _ (by simp)), List.filter_eq_self.mpr (by simp),
    List.map_cons, List.map_singleton, haccount, hdate]

/-- Every account and day can be asked for. -/
theorem asks_listing : (listing account date).Asks account date where
  method := rfl
  path := path_listing account date
  account := by rw [fields_listing]; rfl
  date := ⟨date.text, by rw [fields_listing]; rfl, Date.ofQuery?_text date⟩

end Listing

/-! ### Requests to keep a daily result -/

/-- The request has a daily result in its body and wants it kept. -/
structure Writes (r : Request) (result : DailyResult) : Prop where
  method : r.method = .post
  path : r.path = "/api/results/upsert".toList
  isJson : r.contentType.any MediaType.isJson = true
  body : readText DailyResult.fields.read r.body = .ok result

/-- A request writes one result at most. -/
theorem Writes.unique {r : Request} {result result' : DailyResult} (h : r.Writes result)
    (h' : r.Writes result') : result = result' :=
  Except.ok.inj (h.body.symm.trans h'.body)

/-- It is written with its account trimmed, unless nothing is left of that. -/
theorem action_of_writes {r : Request} {result : DailyResult} (h : r.Writes result) :
    r.action = if Text.trim result.account =
      "" then .respond (.badRequest "account is required")
      else .upsertResult result.trimmed := by
  have hroute : Route.ofPath? r.path = some .upsertResult := by
    rw [h.path]
    rfl
  have hmethod : r.method ∈ Route.upsertResult.allowed := by
    rw [h.method]
    decide
  rw [action, hroute, if_neg (by rw [h.method]; decide)]
  dsimp only
  rw [if_pos hmethod, actionOn, upsertResult, read, h.isJson, h.body]
  rfl

/-- A result that is written comes from a body that is JSON and can be read. -/
theorem of_read_eq {r : Request} {reading : Reading α} {f : α → Action} {w : DailyResult}
    (h : r.read reading f = .upsertResult w) : r.contentType.any MediaType.isJson = true ∧
      ∃ a, readText reading r.body = .ok a ∧ f a = .upsertResult w := by
  rw [read] at h
  split at h
  · cases h
  next hjson =>
    refine ⟨by simpa using hjson, ?_⟩
    split at h
    next a ha => exact ⟨a, ha, h⟩
    · cases h
    · cases h

/-- Of all routes only one leads to the keeping of a daily result. -/
theorem of_actionOn_eq {r : Request} {route : Route} {w : DailyResult}
    (h : r.actionOn route = .upsertResult w) : route = .upsertResult := by
  have hoffers := r.offers_actionOn route
  rw [h] at hoffers
  cases hoffers
  rfl

/-- Results are written under one path. -/
theorem path_of_route {path : List Char} (h : Route.ofPath? path = some .upsertResult) :
    path = "/api/results/upsert".toList := by
  rw [Route.ofPath?] at h
  split at h
  case h_6 hpath =>
    exact (String.toList_ofList (l := path)).symm.trans (congrArg String.toList hpath)
  case h_8 =>
    cases hid : Route.orderId? path <;> rw [hid] at h <;> cases h
  all_goals cases h

/-- A request that makes the service keep a daily result has it in its body, but for the blanks
around its account. -/
theorem exists_writes {r : Request} {w : DailyResult} (h : r.action = .upsertResult w) :
    ∃ result, r.Writes result ∧ w = result.trimmed := by
  obtain ⟨route, hroute, hmethod, h⟩ := exists_route h (by simp)
  obtain rfl := of_actionOn_eq h
  rw [actionOn, upsertResult] at h
  obtain ⟨hjson, result, hbody, hresult⟩ := of_read_eq h
  have hpost : r.method = .post := List.mem_singleton.mp hmethod
  dsimp only at hresult
  split at hresult
  · cases hresult
  · cases hresult
    exact ⟨result, ⟨hpost, path_of_route hroute, hjson, hbody⟩, rfl⟩

end Http.Request

end VenueLink

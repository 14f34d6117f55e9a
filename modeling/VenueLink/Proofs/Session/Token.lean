import VenueLink.Proofs.Session.Pass

/-!
# The token in the answer to a login

A venue answers a login with a token at the top of its answer or in the data of it. `tokenIn?`
picks one of the two places first, by whether the top has the key at all, and only then looks at
what stands there. So a value at the top that is no token hides one in the data, and a login
with such an answer gets no pass.

## Main results

* `tokenIn?_eq_some_iff`: what is found where nothing is hidden.
* `token_is_used_iff`: which answers have a token that is not found, and what a login comes to.
-/

namespace VenueLink.LiveSession

open Json

variable {body : Json} {token : String}

/-- A token is a text that is not empty, under `ssid`. -/
def HoldsToken (place : Json) (token : String) : Prop :=
  place.get? "ssid" = some (string token) ∧ token ≠ ""

/-- The token of an answer: the one at its top, or where there is none the one in its data. -/
def Carries (body : Json) (token : String) : Prop :=
  HoldsToken body token ∨ (∀ t, ¬HoldsToken body t) ∧ HoldsToken (body.getD "data") token

/-- There is a token in the data, and at the top there is something else under its key. -/
def HidesToken (body : Json) : Prop :=
  (∃ v, body.get? "ssid" = some v) ∧ (∀ t, ¬HoldsToken body t) ∧
    ∃ t, HoldsToken (body.getD "data") t

/-! ### What is found -/

/-- What stands under `ssid` in the data, if there are data at all. -/
theorem get?_data :
    (body.get? "data").bind (·.get? "ssid") = (body.getD "data").get? "ssid" := by
  rw [getD]
  cases body.get? "data" <;> rfl

/-- A text that is not empty can be used. -/
theorem usable_iff {found : Option Json} : (found.bind string?).filter (· ≠ "") = some token ↔
    found = some (string token) ∧ token ≠ "" := by
  have hstring : ∀ v : Json, v.string? = some token ↔ v = string token := fun v => by
    cases v <;> simp [string?]
  simp only [Option.filter_eq_some_iff, Option.bind_eq_some_iff, decide_eq_true_eq, hstring,
    exists_eq_right]

/-- The top decides as soon as it has the key. -/
theorem tokenIn?_of_get? {v : Json} (h : body.get? "ssid" = some v) :
    tokenIn? body = some token ↔ HoldsToken body token := by
  rw [tokenIn?, h, HoldsToken, h]
  exact usable_iff

/-- Without the key at the top the data decide. -/
theorem tokenIn?_of_no_key (h : body.get? "ssid" = none) :
    tokenIn? body = some token ↔ HoldsToken (body.getD "data") token := by
  rw [tokenIn?, h, HoldsToken, ← get?_data]
  exact usable_iff

/-- There is no token where there is no key. -/
theorem not_holdsToken_of_no_key (h : body.get? "ssid" = none) (t : String) :
    ¬HoldsToken body t := by
  rintro ⟨ht, -⟩
  cases h.symm.trans ht

/-- A token that is hidden is not found. -/
theorem tokenIn?_of_hidesToken (h : HidesToken body) : tokenIn? body = none := by
  obtain ⟨⟨v, hv⟩, hnone, -⟩ := h
  rw [Option.eq_none_iff_forall_ne_some]
  exact fun t ht => hnone t ((tokenIn?_of_get? hv).mp ht)

/-- Where nothing is hidden, the token of the answer is found. -/
theorem tokenIn?_eq_some_iff (h : ¬HidesToken body) :
    tokenIn? body = some token ↔ Carries body token := by
  cases hkey : body.get? "ssid" with
  | none =>
    have hnone := not_holdsToken_of_no_key hkey
    rw [tokenIn?_of_no_key hkey, Carries, or_iff_right (hnone token), and_iff_right hnone]
  | some v =>
    rw [tokenIn?_of_get? hkey]
    exact ⟨.inl, fun hc => hc.resolve_right
      fun ⟨hnone, hdata⟩ => h ⟨⟨v, hkey⟩, hnone, token, hdata⟩⟩

/-! ### What a login comes to -/

/-- The login is accepted with an answer. -/
def Login.Accepted (l : Login) (config : VenueConfig) (body : Json) : Prop :=
  ∃ reply, l.network.Answers .post config.loginUrl none (some (loginBody l.credentials)) reply ∧
    reply.isSuccess = true ∧ reply.body = some body

/-- The venue says, to somebody with the token, at which second it expires. -/
structure Login.Confirms (l : Login) (config : VenueConfig) (p : Pass) : Prop where
  answered : ∃ reply body,
    l.network.Answers .get config.sessionUrl (some (cookieOf p.token)) none reply ∧
    reply.isSuccess = true ∧ reply.body = some body ∧
      ((body.payload ["data", "result"]).get? "expires_at").bind Json.asInt? = some p.expires
  representable : Timestamp.firstSecond ≤ p.expires ∧ p.expires ≤ Timestamp.lastSecond

section Login

variable {config : VenueConfig} {l : Login} {p : Pass}

/-- An accepted login whose token is found and confirmed gives a pass. -/
theorem Login.Accepted.grants (h : l.Accepted config body)
    (htoken : tokenIn? body = some p.token) (hp : l.Confirms config p) : l.Grants config p := by
  obtain ⟨reply, hanswers, hsuccess, hbody⟩ := h
  exact ⟨⟨reply, body, hanswers, hsuccess, hbody, htoken⟩, hp.answered, hp.representable⟩

/-- An accepted login succeeds exactly if a token is found. -/
theorem Login.Accepted.outcome (h : l.Accepted config body) (s : LiveSession) :
    (s.logIn l.network config l.credentials).2 = .ok ⟨(tokenIn? body).isSome, body⟩ := by
  obtain ⟨reply, hanswers, hsuccess, hbody⟩ := h
  simp only [logIn, loggingIn, Web.Traced.result_bind, Web.fetch_eq_answered_iff.mpr hanswers,
    hbody, Option.getD_some, hsuccess]
  cases tokenIn? body <;> rfl

/-- An accepted login in whose answer no token is found leaves the session as it was. -/
theorem Login.Accepted.session_of_none (h : l.Accepted config body)
    (hnone : tokenIn? body = none) (s : LiveSession) :
    (s.logIn l.network config l.credentials).1 = s := by
  obtain ⟨reply, hanswers, hsuccess, hbody⟩ := h
  rw [logIn_of_answered s hanswers, hbody, Option.getD_some, hnone]
  rfl

end Login

/-- **The token of a login.** From an answer the token at its top is used, and where there is
none the one in its data, in all answers but those that hide it: they have something else under
the key at the top. A login that is accepted with an answer and a token that is not hidden has
succeeded; once the venue has said when the token expires, it is the handshake until then,
whatever the session was. If the token is hidden the login has not succeeded, and the session is
what it was. -/
theorem token_is_used_iff (body : Json) :
    ((∀ token, tokenIn? body = some token ↔ Carries body token) ↔ ¬HidesToken body) ∧
      ∀ (config : VenueConfig) (l : Login), l.Accepted config body → ∀ s : LiveSession,
        (¬HidesToken body → ∀ p : Pass, Carries body p.token → l.Confirms config p →
          s.logIn l.network config l.credentials = (⟨some p⟩, .ok ⟨true, body⟩) ∧
          ∀ now < p.expires * 1000000000,
            (s.logIn l.network config l.credentials).1.handshakeToken now = some p.token) ∧
        (HidesToken body →
          s.logIn l.network config l.credentials = (s, .ok ⟨false, body⟩)) := by
  refine ⟨⟨fun h hhides => ?_, fun hhides token => tokenIn?_eq_some_iff hhides⟩,
    fun config l hl s => ⟨?_, ?_⟩⟩
  · have hmissed := tokenIn?_of_hidesToken hhides
    obtain ⟨-, hnone, t, ht⟩ := hhides
    cases hmissed.symm.trans ((h t).mpr (.inr ⟨hnone, ht⟩))
  · intro hhides p hp hconfirms
    have htoken := (tokenIn?_eq_some_iff hhides).mpr hp
    have hsession := logIn_of_grants s (hl.grants htoken hconfirms)
    have houtcome := hl.outcome s
    rw [htoken] at houtcome
    refine ⟨Prod.ext hsession houtcome, fun now hnow => ?_⟩
    rw [hsession, handshakeToken_eq_some_iff]
    exact ⟨p, rfl, rfl, hnow⟩
  · intro hhides
    have hnone := tokenIn?_of_hidesToken hhides
    have houtcome := hl.outcome s
    rw [hnone] at houtcome
    exact Prod.ext (hl.session_of_none hnone s) houtcome

/-- A venue that accepts every login with the same answer, and says of every token that it
expires in 2030. -/
def welcoming (body : Json) : Login where
  network := {
    address? := Web.Url.ofText?
    reply? := fun r => match r.method with
      | .post => some ⟨200, some body⟩
      | .get =>
          some ⟨200, some (object [("data", object [("expires_at", integer 1900000000)])])⟩ }
  credentials := ⟨"trader@example.com", "secret", none⟩

/-- A venue that answers everything with a success accepts a login. -/
theorem accepted_welcoming (body : Json) : (welcoming body).Accepted {} body := by
  obtain ⟨url, hurl⟩ :
      ∃ url, Web.Askable (welcoming body).network ({} : VenueConfig).loginUrl none url :=
    ⟨_, rfl, by decide +kernel, rfl⟩
  exact ⟨⟨200, some body⟩, ⟨url, hurl, rfl⟩, rfl, rfl⟩

/-- A token in the data is used, though the top has an answer of its own. -/
theorem nested_token_is_used :
    let body := object [("code", string "success"), ("data", object [("ssid", string "xyz")])]
    Carries body "xyz" ∧ ¬HidesToken body ∧ tokenIn? body = some "xyz" ∧
      (({} : LiveSession).logIn (welcoming body).network {}
        (welcoming body).credentials).1.handshakeToken 0 =
        some "xyz" := by
  intro body
  obtain ⟨hfound, hlogin⟩ := token_is_used_iff body
  have hkey : body.get? "ssid" = none := by decide
  have hcarries : Carries body "xyz" :=
    .inr ⟨not_holdsToken_of_no_key hkey, by decide, by decide⟩
  have hhides : ¬HidesToken body := by
    rintro ⟨⟨v, hv⟩, -⟩
    cases hkey.symm.trans hv
  have hconfirms : (welcoming body).Confirms {} ⟨"xyz", 1900000000⟩ := by
    obtain ⟨url, hurl⟩ :
        ∃ url, Web.Askable (welcoming body).network ({} : VenueConfig).sessionUrl
        (some (cookieOf "xyz")) url :=
      ⟨_, rfl, by decide +kernel, by decide⟩
    exact ⟨⟨_, _, ⟨url, hurl, rfl⟩, rfl, rfl, by decide⟩, by decide, by decide⟩
  have hinstalled :=
    ((hlogin {} _ (accepted_welcoming body) {}).1 hhides _ hcarries hconfirms).2
  exact ⟨hcarries, hhides, (hfound.mpr hhides "xyz").mpr hcarries, hinstalled 0 (by decide)⟩

/-- With `null` under its key at the top the token in the data is hidden, and the login has not
succeeded. -/
theorem null_hides_token :
    let body := object [("data", object [("ssid", string "xyz")]), ("ssid", null)]
    HidesToken body ∧ tokenIn? body = none ∧
      ({} : LiveSession).logIn (welcoming body).network {} (welcoming body).credentials =
        ({}, .ok ⟨false, body⟩) ∧
      ¬∀ body token, Carries body token → tokenIn? body = some token := by
  intro body
  have hkey : body.get? "ssid" = some null := by decide
  have hnone : ∀ t, ¬HoldsToken body t := by
    rintro t ⟨ht, -⟩
    cases hkey.symm.trans ht
  have hdata : HoldsToken (body.getD "data") "xyz" := ⟨by decide, by decide⟩
  have hmissed : tokenIn? body = none := by decide
  have hl := accepted_welcoming body
  have houtcome := hl.outcome {}
  rw [hmissed] at houtcome
  refine ⟨⟨⟨null, hkey⟩, hnone, "xyz", hdata⟩, hmissed,
    Prod.ext (hl.session_of_none hmissed {}) houtcome, fun h => ?_⟩
  cases hmissed.symm.trans (h body "xyz" (.inr ⟨hnone, hdata⟩))

end VenueLink.LiveSession

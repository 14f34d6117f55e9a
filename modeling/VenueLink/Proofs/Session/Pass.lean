import Mathlib.Data.List.Induction
import VenueLink.Proofs.Calendar.Range
import VenueLink.Proofs.Document.ReadBack
import VenueLink.Session.Live

/-!
# Which pass a session has

A login gets a pass from the venue (`Login.Grants`) if its answer is accepted and carries a
token, and the venue then says, to somebody with that token, when it expires. A session is
changed by such a login and by nothing else, so after any number of logins it has the pass of
the latest of them (`pass_of_latest_login`). Whoever needs the token asks `LiveSession.current`,
which is why the handshake, the check of the session and the question for the profile agree on
when it has expired.

## Main results

* `Web.fetch_eq_answered_iff` — what it takes for a request to be answered
* `logIn_of_grants`, `logIn_of_not_grants` — what a login does to the session
* `pass_of_latest_login` — the pass after any logins, and what comes of asking with it
-/

namespace VenueLink

namespace Web

namespace Traced

variable {α β : Type}

/-- A value is its own result. -/
@[simp]
theorem result_pure (a : α) : (pure a : Traced α).result = a := rfl

/-- No requests are made for it. -/
@[simp]
theorem requests_pure (a : α) : (pure a : Traced α).requests = [] := rfl

/-- The result of two calls is that of the second with the result of the first. -/
@[simp]
theorem result_bind (x : Traced α) (f : α → Traced β) :
    (x >>= f).result = (f x.result).result := rfl

/-- A function is applied to the result. -/
@[simp]
theorem result_map (f : α → β) (x : Traced α) : (f <$> x).result = f x.result := rfl

/-- It makes no requests. -/
@[simp]
theorem requests_map (f : α → β) (x : Traced α) : (f <$> x).requests = x.requests :=
  List.append_nil _

/-- A function of a value is a value again. -/
theorem map_pure (f : α → β) (a : α) : f <$> (pure a : Traced α) = pure (f a) := rfl

end Traced

/-- A request can be made to an address, which stands for `url`, with a cookie. -/
structure Askable (net : Network) (address : String) (cookie : Option String) (url : Url) :
    Prop where
  stands_for : net.address? address = some url
  web : url.isWeb = true
  sendable : cookie.all isCookie = true

/-- A request can be made to an address, and `reply` comes back for it. -/
def Network.Answers (net : Network) (method : Method) (address : String)
    (cookie : Option String) (body : Option Json) (reply : Reply) : Prop :=
  ∃ url, Askable net address cookie url ∧ net.reply? ⟨method, url, cookie, body⟩ = some reply

section Fetch

variable {net : Network} {method : Method} {address : String} {cookie : Option String}
  {body : Option Json}

/-- A request that can be made is sent. -/
theorem fetch_of_askable {url : Url} (h : Askable net address cookie url) :
    fetch net method address cookie body =
      Fetched.ofReply url <$> send net ⟨method, url, cookie, body⟩ := by
  simp [fetch, h.stands_for, h.web, h.sendable]

/-- A request that cannot be made is not made. -/
theorem fetch_of_not_askable (h : ¬∃ url, Askable net address cookie url) :
    ∃ reason, fetch net method address cookie body = pure (.failed reason) := by
  unfold fetch
  split
  · exact ⟨_, rfl⟩
  next url hurl =>
    split
    · exact ⟨_, rfl⟩
    next hweb =>
      split
      · exact ⟨_, rfl⟩
      next hcookie => exact absurd ⟨url, hurl, by simpa using hweb, by simpa using hcookie⟩ h

/-- An answer comes of a reply and of nothing else. -/
theorem Fetched.ofReply_eq_answered_iff {url : Url} {found : Option Reply} {reply : Reply} :
    ofReply url found = .answered reply ↔ found = some reply := by
  cases found <;> simp [ofReply]

/-- An address stands for one URL. -/
theorem Askable.unique {url url' : Url} (h : Askable net address cookie url)
    (h' : Askable net address cookie url') : url = url' :=
  Option.some.inj (h.stands_for.symm.trans h'.stands_for)

/-- A request is answered exactly if it can be made and something comes back for it. -/
theorem fetch_eq_answered_iff {reply : Reply} :
    (fetch net method address cookie body).result = .answered reply ↔
      net.Answers method address cookie body reply := by
  by_cases h : ∃ url, Askable net address cookie url
  · obtain ⟨url, hurl⟩ := h
    rw [fetch_of_askable hurl, Traced.result_map, Fetched.ofReply_eq_answered_iff]
    constructor
    · exact fun hr => ⟨url, hurl, hr⟩
    · rintro ⟨url', hurl', hr⟩
      rwa [hurl.unique hurl']
  · obtain ⟨reason, hf⟩ :
        ∃ reason, fetch net method address cookie body = pure (.failed reason) :=
      fetch_of_not_askable h
    simp only [hf, Traced.result_pure, reduceCtorEq, false_iff]
    exact fun ⟨url, hurl, _⟩ => h ⟨url, hurl⟩

/-- The only request made is the one that was asked for. -/
theorem eq_of_mem_requests_fetch {r : Request}
    (hr : r ∈ (fetch net method address cookie body).requests) :
    r.method = method ∧ r.cookie = cookie ∧ r.body = body := by
  by_cases h : ∃ url, Askable net address cookie url
  · obtain ⟨url, hurl⟩ := h
    rw [fetch_of_askable hurl, Traced.requests_map] at hr
    obtain rfl := List.mem_singleton.1 hr
    exact ⟨rfl, rfl, rfl⟩
  · obtain ⟨reason, hf⟩ :
        ∃ reason, fetch net method address cookie body = pure (.failed reason) :=
      fetch_of_not_askable h
    rw [hf] at hr
    cases hr

end Fetch

end Web

namespace LiveSession

open Web (Network)

/-- A login: what is sent, and the network as it answers then. -/
structure Login where
  network : Network
  credentials : Credentials

/-- The cookie that goes with a token. -/
def cookieOf (token : String) : String :=
  "ssid=" ++ token

/-- The login gets a pass from the venue: it is accepted with a token, and the venue says, to
somebody with that token, at which second it expires. -/
structure Login.Grants (l : Login) (config : VenueConfig) (p : Pass) : Prop where
  accepted : ∃ reply body, l.network.Answers .post config.loginUrl none
    (some (loginBody l.credentials)) reply ∧ reply.isSuccess = true ∧ reply.body = some body ∧
      tokenIn? body = some p.token
  confirmed : ∃ reply body, l.network.Answers .get config.sessionUrl (some (cookieOf p.token))
    none reply ∧ reply.isSuccess = true ∧ reply.body = some body ∧
      ((body.payload ["data", "result"]).get? "expires_at").bind Json.asInt? = some p.expires
  representable : Timestamp.firstSecond ≤ p.expires ∧ p.expires ≤ Timestamp.lastSecond

/-! ### One login -/

/-- An answer gives JSON exactly if it is a success with JSON; a refusal is no success. -/
theorem readJson_eq_ok_iff {address : String} {f : Web.Fetched} {body : Json} :
    readJson address f = .ok body ↔
      ∃ reply, f = .answered reply ∧ reply.isSuccess = true ∧ reply.body = some body := by
  cases f with
  | failed reason => simp [readJson]
  | answered reply =>
    simp only [Web.Fetched.answered.injEq, exists_eq_left', readJson]
    split
    next h =>
      have hno : reply.isSuccess = false := by
        simp only [Bool.or_eq_true, decide_eq_true_eq] at h
        rcases h with h | h <;> simp [Web.Reply.isSuccess, h]
      simp [hno]
    · split
      next h => simp_all
      next h => cases hb : reply.body <;> simp_all

/-- A question with a token has an answer when a success with a body comes back. -/
theorem getAs_eq_ok_iff {net : Network} {address token : String} {body : Json} :
    (getAs net address token).result = .ok body ↔
      ∃ reply, net.Answers .get address (some (cookieOf token)) none reply ∧
        reply.isSuccess = true ∧ reply.body = some body := by
  simp only [getAs, Web.Traced.result_map, readJson_eq_ok_iff, Web.fetch_eq_answered_iff]
  rfl

/-- An expiry is the number in an answer, if it is a time that can be written. -/
theorem expiryIn?_eq_some_iff {body : Json} {expires : Int} :
    expiryIn? body = some expires ↔
      ((body.payload ["data", "result"]).get? "expires_at").bind Json.asInt? = some expires ∧
        Timestamp.firstSecond ≤ expires ∧ expires ≤ Timestamp.lastSecond :=
  Option.filter_eq_some_iff.trans (and_congr_right fun _ => Timestamp.isUnixSecond_iff expires)

/-- A token is installed exactly if the venue says when it expires. -/
theorem install_eq (s : LiveSession) (net : Network) (config : VenueConfig) (token : String) :
    (s.install net config token).result =
      (((getAs net config.sessionUrl token).result.toOption.bind expiryIn?).map fun expires =>
        LiveSession.mk (some ⟨token, expires⟩)).getD s := by
  simp only [install, Web.Traced.result_bind]
  split <;> simp [*]

/-- The expiry of a pass is what the venue says when it is asked with its token. -/
theorem expiry_reported_iff {net : Network} {config : VenueConfig} {p : Pass} :
    (getAs net config.sessionUrl p.token).result.toOption.bind expiryIn? = some p.expires ↔
      (∃ reply body, net.Answers .get config.sessionUrl (some (cookieOf p.token)) none reply ∧
        reply.isSuccess = true ∧ reply.body = some body ∧
          ((body.payload ["data", "result"]).get? "expires_at").bind Json.asInt? =
            some p.expires) ∧
        Timestamp.firstSecond ≤ p.expires ∧ p.expires ≤ Timestamp.lastSecond := by
  simp only [Option.bind_eq_some_iff, toOption_eq_some_iff, getAs_eq_ok_iff,
    expiryIn?_eq_some_iff]
  constructor
  · rintro ⟨body, ⟨reply, ha, hs, hb⟩, he, hu⟩
    exact ⟨⟨reply, body, ha, hs, hb, he⟩, hu⟩
  · rintro ⟨⟨reply, body, ha, hs, hb, he⟩, hu⟩
    exact ⟨body, ⟨reply, ha, hs, hb⟩, he, hu⟩

variable {config : VenueConfig} {l : Login}

/-- What a login does to the session, with the reply to it at hand. -/
theorem logIn_of_answered (s : LiveSession) {reply : Web.Reply}
    (h : l.network.Answers .post config.loginUrl none (some (loginBody l.credentials)) reply) :
    (s.logIn l.network config l.credentials).1 =
      (((tokenIn? (reply.body.getD .null)).filter fun _ => reply.isSuccess).map fun token =>
        (s.install l.network config token).result).getD s := by
  simp only [logIn, loggingIn, Web.Traced.result_bind, Web.fetch_eq_answered_iff.2 h]
  split <;> simp [*]

/-- A login that is not answered leaves the session as it was. -/
theorem logIn_of_not_answered (s : LiveSession) (h : ∀ reply, ¬ l.network.Answers .post
      config.loginUrl none (some (loginBody l.credentials)) reply) :
    (s.logIn l.network config l.credentials).1 = s := by
  simp only [logIn, loggingIn, Web.Traced.result_bind]
  split
  · rfl
  next reply hr => exact (h reply (Web.fetch_eq_answered_iff.1 hr)).elim

/-- A login that gets a pass installs it, whatever pass there was. -/
theorem logIn_of_grants (s : LiveSession) {p : Pass} (h : l.Grants config p) :
    (s.logIn l.network config l.credentials).1 = ⟨some p⟩ := by
  obtain ⟨reply, body, ha, hs, hb, ht⟩ := h.accepted
  have hexp := expiry_reported_iff.2 ⟨h.confirmed, h.representable⟩
  have htoken : ((tokenIn? (reply.body.getD .null)).filter fun _ => reply.isSuccess) =
      some p.token := by
    rw [hb, Option.getD_some, ht, hs]
    rfl
  rw [logIn_of_answered s ha, htoken, Option.map_some, Option.getD_some, install_eq, hexp]
  rfl

/-- A login gives one pass at most. -/
theorem Login.Grants.unique {p p' : Pass} (h : l.Grants config p) (h' : l.Grants config p') :
    p = p' := by
  have heq := (logIn_of_grants {} h).symm.trans (logIn_of_grants {} h')
  simpa using heq

/-- A session that a login has changed has a pass that the login got. -/
theorem eq_or_grants (s : LiveSession) (config : VenueConfig) (l : Login) :
    (s.logIn l.network config l.credentials).1 = s ∨ ∃ p, l.Grants config p := by
  by_cases h : ∃ reply, l.network.Answers .post config.loginUrl none
      (some (loginBody l.credentials)) reply
  · obtain ⟨reply, ha⟩ := h
    rw [logIn_of_answered s ha]
    cases ht : (tokenIn? (reply.body.getD .null)).filter fun _ => reply.isSuccess with
    | none => exact .inl rfl
    | some token =>
      obtain ⟨ht, hs⟩ := Option.filter_eq_some_iff.1 ht
      rw [Option.map_some, Option.getD_some, install_eq]
      cases he : (getAs l.network config.sessionUrl token).result.toOption.bind expiryIn? with
      | none => exact .inl rfl
      | some expires =>
        obtain ⟨hc, hu⟩ := (expiry_reported_iff (p := ⟨token, expires⟩)).1 he
        cases hb : reply.body with
        | none => rw [hb] at ht; cases ht
        | some body =>
          rw [hb, Option.getD_some] at ht
          exact .inr ⟨⟨token, expires⟩, ⟨reply, body, ha, hs, hb, ht⟩, hc, hu⟩
  · exact .inl (logIn_of_not_answered s (not_exists.1 h))

/-- A login that gets no pass leaves the session as it was. -/
theorem logIn_of_not_grants (s : LiveSession) (h : ∀ p, ¬ l.Grants config p) :
    (s.logIn l.network config l.credentials).1 = s :=
  (s.eq_or_grants config l).resolve_right (not_exists.2 h)

/-! ### Any number of logins -/

/-- The session after some logins, when there was none before. -/
def after (config : VenueConfig) (logins : List Login) : LiveSession :=
  logins.foldl (fun s l => (s.logIn l.network config l.credentials).1) {}

/-- The last login is made in the session that the others have left. -/
theorem after_concat (config : VenueConfig) (logins : List Login) (l : Login) :
    after config (logins ++ [l]) =
      ((after config logins).logIn l.network config l.credentials).1 := by
  simp [after]

/-- `p` is what the latest of the logins got that got a pass. -/
def LatestGrants (config : VenueConfig) (logins : List Login) (p : Pass) : Prop :=
  ∃ before l later, logins = before ++ l :: later ∧ l.Grants config p ∧
    ∀ l' ∈ later, ∀ p', ¬ l'.Grants config p'

/-- The latest pass is that of the last login, or where that gives none the one before. -/
theorem latestGrants_concat_iff {logins : List Login} {p : Pass} :
    LatestGrants config (logins ++ [l]) p ↔
      l.Grants config p ∨ (∀ p', ¬ l.Grants config p') ∧ LatestGrants config logins p := by
  constructor
  · rintro ⟨before, m, later, heq, hg, hno⟩
    rcases List.eq_nil_or_concat later with rfl | ⟨later, last, rfl⟩
    · obtain ⟨rfl, h⟩ := List.append_inj' heq rfl
      obtain rfl := (List.cons.inj h).1
      exact .inl hg
    · rw [List.concat_eq_append, ← List.cons_append, ← List.append_assoc] at heq
      obtain ⟨rfl, h⟩ := List.append_inj' heq rfl
      obtain rfl := (List.cons.inj h).1
      rw [List.concat_eq_append] at hno
      exact .inr ⟨hno l (by simp), before, m, later, rfl, hg,
        fun l' hl' => hno l' (List.mem_append_left _ hl')⟩
  · rintro (hg | ⟨hno, before, m, later, rfl, hg, hlater⟩)
    · exact ⟨logins, l, [], rfl, hg, by simp⟩
    · refine ⟨before, m, later ++ [l], by simp, hg, fun l' hl' => ?_⟩
      rcases List.mem_append.1 hl' with hl' | hl'
      · exact hlater l' hl'
      · obtain rfl := List.mem_singleton.1 hl'
        exact hno

/-- The session has the latest pass. -/
theorem pass_after_iff (config : VenueConfig) (logins : List Login) (p : Pass) :
    (after config logins).pass = some p ↔ LatestGrants config logins p := by
  induction logins using List.reverseRecOn with
  | nil => simp [after, LatestGrants]
  | append_singleton logins l ih =>
    rw [after_concat, latestGrants_concat_iff, ← ih]
    by_cases hg : ∃ q, l.Grants config q
    · obtain ⟨q, hq⟩ := hg
      rw [logIn_of_grants _ hq]
      refine ⟨?_, ?_⟩
      · rintro h
        obtain rfl : q = p := by simpa using h
        exact .inl hq
      · rintro (h | ⟨hno, -⟩)
        · rw [hq.unique h]
        · exact (hno q hq).elim
    · simp [logIn_of_not_grants _ (not_exists.1 hg), not_exists.1 hg]

/-! ### Asking with the pass -/

section Readers

variable {s : LiveSession} {now : Int} {token : String}

/-- There is a token to ask with exactly if there is a pass and its second has not come. -/
theorem current_eq_ok_iff :
    s.current now = .ok token ↔
      ∃ p, s.pass = some p ∧ p.token = token ∧ now < p.expires * 1000000000 := by
  unfold current
  cases s.pass with
  | none => simp
  | some p =>
    by_cases h : p.expires * 1000000000 ≤ now
    · simp [h]
    · simp [h, Int.not_le.1 h]

/-- The handshake has the token of the pass until it expires. -/
theorem handshakeToken_eq_some_iff :
    s.handshakeToken now = some token ↔
      ∃ p, s.pass = some p ∧ p.token = token ∧ now < p.expires * 1000000000 :=
  toOption_eq_some_iff.trans current_eq_ok_iff

/-- Whatever is wrong with the pass is reported as a fault of the session. -/
theorem current_of_no_token (h : s.handshakeToken now = none) :
    ∃ why, s.current now = .error (.session why) := by
  unfold handshakeToken at h
  unfold current at h ⊢
  split
  · exact ⟨_, rfl⟩
  next p hp =>
    split
    · exact ⟨_, rfl⟩
    next hexp => simp [hp, hexp, Except.toOption] at h

/-- Without a token nothing is asked, on whatever network. -/
theorem get_of_no_token (h : s.handshakeToken now = none) :
    ∃ why, ∀ net address, s.get net now address = pure (.error (.session why)) := by
  obtain ⟨why, hcur⟩ := current_of_no_token h
  exact ⟨why, fun net address => by rw [get, hcur]⟩

/-- With a token, all that is asked is asked with it. -/
theorem cookie_of_mem_requests_get {net : Network} {address : String} {r : Web.Request}
    (h : s.handshakeToken now = some token) (hr : r ∈ (s.get net now address).requests) :
    r.cookie = some (cookieOf token) := by
  have hget : s.get net now address = getAs net address token := by
    rw [get, toOption_eq_some_iff.1 h]
  rw [hget] at hr
  simp only [getAs, Web.Traced.requests_map] at hr
  exact (Web.eq_of_mem_requests_fetch hr).2.1

end Readers

/-- **The pass of a session.** After any logins the session has the pass that the latest of
those got that got one at all: its token was in the accepted answer to the login, and the venue
has said, to somebody with that token, when it expires. A login that gets none leaves the
session as it was. At every instant the token of that pass is the handshake exactly until its
second has come; then the check of the session and the question for the profile are made with it
too, and otherwise both fail as faults of the session with no request made. -/
theorem pass_of_latest_login (config : VenueConfig) (logins : List Login) :
    (∀ p, (after config logins).pass = some p ↔
      ∃ before l later, logins = before ++ l :: later ∧ l.Grants config p ∧
        ∀ l' ∈ later, ∀ p', ¬ l'.Grants config p') ∧
    (∀ l, (∀ p, ¬ l.Grants config p) → after config (logins ++ [l]) = after config logins) ∧
    ∀ now,
      (∀ token, (after config logins).handshakeToken now = some token ↔
        ∃ p, (after config logins).pass = some p ∧ p.token = token ∧
          now < p.expires * 1000000000) ∧
      (∀ token, (after config logins).handshakeToken now = some token → ∀ net,
        (∀ r ∈ ((after config logins).establishing net config now).requests,
          r.cookie = some (cookieOf token)) ∧
        ∀ r ∈ ((after config logins).profiling net config now).requests,
          r.cookie = some (cookieOf token)) ∧
      ((after config logins).handshakeToken now = none → ∃ why, ∀ net,
        (after config logins).establishing net config now = ⟨.error (.session why), []⟩ ∧
        (after config logins).profiling net config now = ⟨.error (.session why), []⟩) := by
  refine ⟨pass_after_iff config logins, fun l hl => ?_,
    fun now => ⟨fun token => ?_, ?_, fun h => ?_⟩⟩
  · rw [after_concat, logIn_of_not_grants _ hl]
  · exact handshakeToken_eq_some_iff
  · intro token h net
    refine ⟨fun r hr => ?_, fun r hr => ?_⟩
    · rw [establishing, Web.Traced.requests_map] at hr
      exact cookie_of_mem_requests_get h hr
    · rw [profiling, Web.Traced.requests_map] at hr
      exact cookie_of_mem_requests_get h hr
  · obtain ⟨why, hget⟩ := get_of_no_token h
    refine ⟨why, fun net => ⟨?_, ?_⟩⟩
    · rw [establishing, hget, Web.Traced.map_pure]
      rfl
    · rw [profiling, hget, Web.Traced.map_pure]
      rfl

/-- A venue that accepts every login, with the token `abc`, and answers with a status and an
expiry when it is asked about the session. -/
def hospitable (status : Nat) (expires : Int) : Network where
  address? := Web.Url.ofText?
  reply? r := match r.method with
    | .post => some ⟨200, some (.object [("ssid", .string "abc")])⟩
    | .get =>
        some ⟨status, some (.object [("data", .object [("expires_at", .integer expires)])])⟩

-- the first login gets a pass; the others are accepted and get none
example :
    (after {}
      [⟨hospitable 200 1900000000, ⟨"", "", none⟩⟩, ⟨hospitable 403 2000000000, ⟨"", "", none⟩⟩,
        ⟨hospitable 200 8210266876800, ⟨"", "", none⟩⟩]).pass = some ⟨"abc", 1900000000⟩ := by
  decide +kernel

end LiveSession

end VenueLink

import VenueLink.Proofs.Broker.Ledger

/-!
# The attempts of a lookup

A lookup goes through the families of its search in order, with one exchange for each, and stops
at the first one that is answered. Whatever ends an attempt, be it the deadline, the loss of the
connection or a message that was meant for somebody else, its transcript is kept, and the
transcripts of all attempts make up what the caller is told besides the id.

## Main results

* `along_search`: how the plan of a search goes over attempts that have ended.
* `concludes_of_along`: what a search reports after its attempts.
* `Trod.search`: where a caller is that looks up a ticker, and what it has answered.
* `lookup_goes_through_families`: what a lookup comes to, in every course.
-/

namespace VenueLink

open Exchange Exchange.Plan Switchboard

variable {ρ : Type}

namespace Call

/-- The exchange of an attempt. -/
def attempt (limits : Limits) (ticker : String) (f : Instrument.Family) : Spec Answer :=
  spec (.instruments f) (Answer.toInstrument ticker) limits.instruments

variable {limits : Limits} {ticker : String}

/-- A search has gone over some attempts without finding anything, and on to the search through
the other families; or the last attempt has found an id, and that is its report. -/
theorem along_search {families : List Instrument.Family} {seen : List Json} {n : Nat}
    {legs : List (Leg Answer)} {p : Plan Answer CallResult n}
    (h : (searchPlan limits ticker families seen).Along legs p) :
    (∃ tried rest, families = tried ++ rest ∧
      legs.map Leg.spec = tried.map (attempt limits ticker) ∧
      (∀ l ∈ legs, foundIn l.resolution = none) ∧
      (searchPlan limits ticker rest
        (seen ++ legs.flatMap (·.resolution.transcript))).Along [] p) ∨
    ∃ earlier last id, legs = earlier ++ [last] ∧
      legs.map Leg.spec <+: families.map (attempt limits ticker) ∧
      (∀ l ∈ earlier, foundIn l.resolution = none) ∧ foundIn last.resolution = some id ∧
      ∃ m, (.report
          (.ok (.instrument ⟨true, some id, seen ++ legs.flatMap (·.resolution.transcript)⟩)) :
        Plan Answer CallResult m).Along [] p := by
  induction families generalizing seen legs with
  | nil =>
    cases h
    exact .inl ⟨[], [], rfl, rfl, fun _ hl => absurd hl List.not_mem_nil, by
      simpa using .here _⟩
  | cons f rest ih =>
    cases h with
    | here =>
      exact .inl ⟨[], f :: rest, rfl, rfl, fun _ hl => absurd hl List.not_mem_nil, by
        simpa using .here _⟩
    | @past _ _ _ _ ex r legs _ hrest =>
      dsimp only at hrest
      cases hfound : foundIn r with
      | some id =>
        rw [hfound] at hrest
        obtain ⟨rfl, hreport⟩ := Along.of_report hrest
        refine .inr ⟨[], _, id, rfl, ⟨rest.map (attempt limits ticker), rfl⟩,
          fun _ hl => absurd hl List.not_mem_nil, hfound, rest.length, ?_⟩
        rwa [List.flatMap_cons, List.flatMap_nil, List.append_nil]
      | none =>
        rw [hfound] at hrest
        rcases ih hrest with ⟨tried, others, rfl, hspecs, hnone, hp⟩ |
          ⟨earlier, last, id, rfl, hspecs, hnone, hlast, m, hp⟩
        · refine .inl ⟨f :: tried, others, rfl, congrArg (_ :: ·) hspecs,
            List.forall_mem_cons.mpr ⟨hfound, hnone⟩, ?_⟩
          rwa [List.flatMap_cons, ← List.append_assoc]
        · refine .inr
            ⟨⟨ex, _, r⟩ :: earlier, last, id, rfl, ?_, List.forall_mem_cons.mpr ⟨hfound, hnone⟩,
            hlast, m, ?_⟩
          · obtain ⟨others, heq⟩ := hspecs
            exact ⟨others, congrArg (_ :: ·) heq⟩
          · rwa [List.flatMap_cons, ← List.append_assoc]

/-! ### What an attempt comes to -/

/-- What comes first in the attempts of a search are attempts for its ticker. -/
theorem matcher_of_prefix {families : List Instrument.Family} {legs : List (Leg Answer)}
    (h : legs.map Leg.spec <+: families.map (attempt limits ticker)) :
    ∀ l ∈ legs, l.spec.matcher = Answer.toInstrument ticker := by
  intro l hl
  obtain ⟨f, -, heq⟩ := List.mem_map.mp (h.subset (List.mem_map_of_mem hl))
  rw [← heq]
  rfl

section HasRun

variable {s : Switchboard Answer ρ} {l : Leg Answer} (h : s.HasRun l)
  (hl : l.spec.matcher = Answer.toInstrument ticker)
include h hl

/-- An attempt that has found nothing has failed. -/
theorem failed_of_foundIn (hnone : foundIn l.resolution = none) :
    ∃ f, l.resolution = .failed f := by
  cases hr : l.resolution with
  | failed f => exact ⟨f, rfl⟩
  | matched m =>
    obtain ⟨value, raw, transcript⟩ := m
    obtain ⟨-, hvalue⟩ := h.read _ hr
    rw [hl] at hvalue
    change value = .instrument _ at hvalue
    rw [hr, hvalue] at hnone
    cases hnone

/-- An attempt that has found an id was answered with a message that has it for the ticker. -/
theorem found_of_foundIn {id : String} (hsome : foundIn l.resolution = some id) :
    ∃ m, l.resolution = .matched m ∧ Instrument.find? m.raw ticker = some id := by
  cases hr : l.resolution with
  | failed f =>
    rw [hr] at hsome
    cases hsome
  | matched m =>
    obtain ⟨value, raw, transcript⟩ := m
    obtain ⟨haccepts, hvalue⟩ := h.read _ hr
    rw [hl] at haccepts hvalue
    change value = .instrument _ at hvalue
    rw [hr, hvalue] at hsome
    obtain ⟨found, hfound⟩ := Option.isSome_iff_exists.mp haccepts
    change Instrument.find? raw ticker = some found at hfound
    obtain rfl : (Instrument.find? raw ticker).getD "" = id := Option.some.inj hsome
    exact ⟨_, rfl, by rw [hfound, Option.getD_some]⟩

end HasRun

/-! ### What a search comes to -/

/-- What a lookup has answered after its attempts: they go through the first of its families,
all but the last one have failed, and it is successful exactly if the last one was answered. -/
structure Concludes (limits : Limits) (ticker : String) (families : List Instrument.Family)
    (legs : List (Leg Answer)) (found : Resolved) : Prop where
  inOrder : legs.map Leg.spec <+: families.map (attempt limits ticker)
  failed : ∀ l ∈ legs.dropLast, ∃ f, l.resolution = .failed f
  raw_eq : found.raw = legs.flatMap (·.resolution.transcript)
  success_iff : found.success = true ↔ found.instrumentId ≠ none
  id_eq : ∀ id, found.instrumentId = some id → ∃ last m, legs.getLast? = some last ∧
    last.resolution = .matched m ∧ Instrument.find? m.raw ticker = some id
  exhausted : found.success = false → legs.map Leg.spec = families.map (attempt limits ticker) ∧
    ∀ l ∈ legs, ∃ f, l.resolution = .failed f

section Search

variable {s : Switchboard Answer ρ} {families : List Instrument.Family}
  {legs : List (Leg Answer)} (hrun : ∀ l ∈ legs, s.HasRun l)
include hrun

/-- A search that is at an exchange is at its next attempt, and those before it have failed. -/
theorem attempt_of_along {n : Nat} {spec : Spec Answer}
    {next : Resolution Answer → Plan Answer CallResult n}
    (h : (searchPlan limits ticker families []).Along legs (.exchange spec next)) :
    ∃ f, spec = attempt limits ticker f ∧
      legs.map Leg.spec ++ [spec] <+: families.map (attempt limits ticker) ∧
      ∀ l ∈ legs, ∃ f, l.resolution = .failed f := by
  rcases along_search h with ⟨tried, rest, rfl, hspecs, hnone, hlast⟩ |
    ⟨earlier, last, id, rfl, -, -, -, m, hlast⟩
  · cases rest with
    | nil => cases hlast
    | cons f rest =>
      cases hlast
      have hprefix : legs.map Leg.spec ++ [attempt limits ticker f] <+:
          (tried ++ f :: rest).map (attempt limits ticker) :=
        ⟨rest.map (attempt limits ticker), by rw [hspecs]; simp⟩
      have hmatcher := matcher_of_prefix ((List.prefix_append _ _).trans hprefix)
      exact ⟨f, rfl, hprefix,
        fun l hl => failed_of_foundIn (hrun l hl) (hmatcher l hl) (hnone l hl)⟩
  · cases hlast

/-- A search that has come to a report has tried all its families in vain, or its last attempt
was answered. -/
theorem concludes_of_along {n : Nat} {r : CallResult}
    (h : (searchPlan limits ticker families []).Along legs
      (.report r : Plan Answer CallResult n)) :
    ∃ found, r = .ok (.instrument found) ∧ Concludes limits ticker families legs found := by
  rcases along_search h with ⟨tried, rest, rfl, hspecs, hnone, hlast⟩ |
    ⟨earlier, last, id, rfl, hspecs, hnone, hsome, m, hlast⟩
  · cases rest with
    | cons f rest => cases hlast
    | nil =>
      cases hlast
      rw [List.append_nil]
      have hprefix : legs.map Leg.spec <+: tried.map (attempt limits ticker) :=
        hspecs ▸ List.prefix_rfl
      have hmatcher := matcher_of_prefix hprefix
      have hfailed : ∀ l ∈ legs, ∃ f, l.resolution = .failed f := fun l hl =>
        failed_of_foundIn (hrun l hl) (hmatcher l hl) (hnone l hl)
      exact ⟨_, rfl,
        { inOrder := hprefix
          failed := fun l hl => hfailed l (List.dropLast_subset _ hl)
          raw_eq := rfl
          success_iff := by simp
          id_eq := fun id hid => by cases hid
          exhausted := fun _ => ⟨hspecs, hfailed⟩ }⟩
  · cases hlast
    have hmatcher := matcher_of_prefix hspecs
    have hmem : last ∈ earlier ++ [last] := List.mem_append_right _ List.mem_cons_self
    obtain ⟨m, hm, hfind⟩ := found_of_foundIn (hrun last hmem) (hmatcher last hmem) hsome
    exact ⟨_, rfl,
      { inOrder := hspecs
        failed := fun l hl => by
          rw [List.dropLast_concat] at hl
          have hl' := List.mem_append_left [last] hl
          exact failed_of_foundIn (hrun l hl') (hmatcher l hl') (hnone l hl)
        raw_eq := rfl
        success_iff := by simp
        id_eq := fun id' hid => by
          obtain rfl := Option.some.inj hid
          exact ⟨last, m, by simp, hm, hfind⟩
        exhausted := fun hfalse => by cases hfalse }⟩

end Search

end Call

namespace Switchboard

/-- Whoever looks up a ticker is at the attempt after those that have failed, or has answered
what the attempts came to. -/
theorem Trod.search {told : ρ → Prop} {s : Switchboard Answer ρ}
    {book : List (Nat × Spec Answer)} {k : Nat} {limits : Limits} {ticker : String}
    {families : List Instrument.Family} {tell : CallResult → ρ}
    (h : Trod told s book k ((Call.searchPlan limits ticker families []).map tell)) :
    ∃ legs, (∀ l ∈ legs, s.HasRun l) ∧
      ((∃ c ∈ s.callers, c.id = k ∧
        ∃ ex f, c.goal.errand? = some (ex, Call.attempt limits ticker f) ∧
          linesOf k 0 book = legs.map Leg.line ++ [(ex, Call.attempt limits ticker f)] ∧
          (∀ l ∈ legs, ∃ f, l.resolution = .failed f) ∧
          legs.map Leg.spec ++ [Call.attempt limits ticker f] <+:
            families.map (Call.attempt limits ticker)) ∨
        ∃ found, told (tell (.ok (.instrument found))) ∧ linesOf k 0 book = legs.map Leg.line ∧
          Call.Concludes limits ticker families legs found) := by
  obtain ⟨legs, hrun, hwhere⟩ := h
  refine ⟨legs, hrun, ?_⟩
  rcases hwhere with ⟨c, hc, hid, ex, spec, m, next, hg, halong, hlines⟩ |
    ⟨-, r, m, htold, halong, hlines⟩
  · obtain ⟨q, hq, hmap⟩ := halong.of_map
    cases q with
    | report r => cases hmap
    | exchange spec' next' =>
      obtain ⟨rfl, -⟩ := Plan.exchange.inj hmap
      obtain ⟨f, rfl, hprefix, hfailed⟩ := Call.attempt_of_along hrun hq
      exact .inl ⟨c, hc, hid, ex, f, by rw [hg]; rfl, hlines, hfailed, hprefix⟩
  · obtain ⟨q, hq, hmap⟩ := halong.of_map
    cases q with
    | exchange spec' next' => cases hmap
    | report r' =>
      obtain rfl := Plan.report.inj hmap
      obtain ⟨found, rfl, hfound⟩ := Call.concludes_of_along hrun hq
      exact .inr ⟨found, htold, hlines, hfound⟩

/-- The attempts that a caller has made go through the first of some specs in order, and all but
the last one have failed by then. -/
structure GoesThrough (s : Switchboard Answer ρ) (book : List (Nat × Spec Answer)) (k : Nat)
    (specs : List (Spec Answer)) : Prop where
  inOrder : (linesOf k 0 book).map Prod.snd <+: specs
  failed : ∀ line ∈ (linesOf k 0 book).dropLast, ∃ f, s.resolution? line.1 = some (.failed f)

/-- Whoever looks up a ticker makes the next attempt once the last one has failed. -/
theorem Trod.goesThrough {told : ρ → Prop} {s : Switchboard Answer ρ}
    {book : List (Nat × Spec Answer)} {k : Nat} {limits : Limits} {ticker : String}
    {families : List Instrument.Family} {tell : CallResult → ρ}
    (h : Trod told s book k ((Call.searchPlan limits ticker families []).map tell)) :
    s.GoesThrough book k (families.map (Call.attempt limits ticker)) := by
  obtain ⟨legs, hrun, ⟨c, -, -, ex, f, -, hlines, hfailed, hprefix⟩ |
      ⟨found, -, hlines, hfound⟩⟩ := h.search
  · refine ⟨?_, fun line hline => ?_⟩
    · rw [hlines, List.map_append, List.map_map]
      exact hprefix
    · rw [hlines, List.dropLast_concat] at hline
      obtain ⟨l, hl, rfl⟩ := List.mem_map.mp hline
      obtain ⟨f, hf⟩ := hfailed l hl
      exact ⟨f, hf ▸ (hrun l hl).ended⟩
  · refine ⟨?_, fun line hline => ?_⟩
    · rw [hlines, List.map_map]
      exact hfound.inOrder
    · rw [hlines, ← List.map_dropLast] at hline
      obtain ⟨l, hl, rfl⟩ := List.mem_map.mp hline
      obtain ⟨f, hf⟩ := hfound.failed l hl
      exact ⟨f, hf ▸ (hrun l (List.dropLast_subset _ hl)).ended⟩

end Switchboard

namespace Broker

/-- What the lookup of a ticker comes to for the caller `k`. -/
structure LooksUp (b : Broker ρ) (deeds : List (Deed ρ)) (k : Nat)
    (families : List Instrument.Family) (ticker : String) (tell : CallResult → ρ) : Prop where
  /-- At any time it has tried the first of the families in order, each once the one before has
  failed. -/
  tries : ∀ before later, b.history deeds = before ++ later →
    (b.board.after before).GoesThrough (b.board.enrolledOver before) k
      (families.map (Call.attempt b.config.limits ticker))
  /-- An attempt that has failed has run into its deadline, or it has lost the connection. -/
  lapses : ∀ ex spec, (b.ledger deeds)[ex]? = some (k, spec) → ∀ f,
    (b.course deeds).board.resolution? ex = some (.failed f) →
      f.cause = .timeout ∨ f.cause = .connectionLost
  /-- It answers what all its attempts have come to. -/
  answers : ∀ r, b.board.Answers (b.history deeds) k r → ∃ found legs,
    r = tell (.ok (.instrument found)) ∧ linesOf k 0 (b.ledger deeds) = legs.map Leg.line ∧
      (∀ l ∈ legs, (b.course deeds).board.resolution? l.id = some l.resolution) ∧
      Call.Concludes b.config.limits ticker families legs found

/-- A lookup of a ticker that is not blank is a plan of attempts. -/
theorem prepare_instrument (b : Broker ρ) (search : Instrument.Search) {ticker : String}
    (hticker : Text.trim ticker ≠ "") : b.prepare (.instrument search ticker) =
      (b.syncHandshake,
        ⟨_, Call.searchPlan b.config.limits (Text.trim ticker) search.families []⟩) :=
  if_neg hticker

section Course

variable {config : VenueConfig} {session : SessionScript} {responders : List Responder}
  {deeds : List (Deed ρ)} {k : Nat} {label : String} {search : Instrument.Search}
  {ticker : String} {tell : CallResult → ρ} (hticker : Text.trim ticker ≠ "")
include hticker

/-- At the end of a course a lookup has gone through some of its attempts. -/
theorem trod_of_lookup
    (hcall : (start config session responders).Brought deeds k
      (.call label (.instrument search ticker) tell)) : Trod
      ((start config session responders).board.Answers
        ((start config session responders).history deeds) k)
      ((start config session responders).course deeds).board
      ((start config session responders).ledger deeds) k
      ((Call.searchPlan config.limits (Text.trim ticker) search.families []).map tell) := by
  obtain ⟨b, hconfig, htrod⟩ := trod_of_brought hcall
  rw [b.prepare_instrument search hticker, hconfig] at htrod
  exact htrod

/-- A call for an instrument goes through the families of its search. -/
theorem looksUp_of_brought
    (hcall : (start config session responders).Brought deeds k
      (.call label (.instrument search ticker) tell)) :
    (start config session responders).LooksUp deeds k search.families (Text.trim ticker)
      tell := by
  have hord := orderly_board_start (ρ := ρ) config session responders
  have htrod := trod_of_lookup hticker hcall
  refine ⟨fun before later heq => ?_, fun ex spec hline f hf => ?_, fun r hr => ?_⟩
  · obtain ⟨b, hconfig, hat⟩ := trod_at_of_brought hcall
    rcases hat before later heq with hle | hgone
    · have hnil := linesOf_eq_nil_of_le hle
      exact ⟨hnil ▸ List.nil_prefix, fun line hline => by rw [hnil] at hline; cases hline⟩
    · rw [b.prepare_instrument search hticker, hconfig] at hgone
      exact hgone.goesThrough
  · obtain ⟨o, hout, hfailed⟩ := resolution?_eq_some_iff.mp hf
    have hspec : ∀ m, spec.matcher.rejects m = false := by
      have hmem :
          spec ∈ (linesOf k 0 ((start config session responders).ledger deeds)).map Prod.snd :=
        List.mem_map.mpr ⟨_, mem_linesOf.mpr hline, rfl⟩
      obtain ⟨f, -, rfl⟩ := List.mem_map.mp (htrod.goesThrough.inOrder.subset hmem)
      exact fun _ => rfl
    rcases met_or_failed hline hspec hout with ⟨_, _, _, _, -, hmatched⟩ | ⟨seen, hlate, -⟩ |
      ⟨seen, hlost⟩
    · rw [hfailed] at hmatched
      cases hmatched
    · obtain rfl := Resolution.failed.inj (hfailed.symm.trans hlate)
      exact .inl rfl
    · obtain rfl := Resolution.failed.inj (hfailed.symm.trans hlost)
      exact .inr rfl
  · obtain ⟨legs, hrun, ⟨c, hc, hid, -⟩ | ⟨found, htold, hlines, hfound⟩⟩ := htrod.search
    · exact absurd hid (gone_of_answers hord hr c hc)
    · exact ⟨found, legs, Answers.unique hord hr htold, hlines, fun l hl => (hrun l hl).ended,
        hfound⟩

/-- Once the deadline of its attempt has come, a lookup has answered or gone on to the next
attempt. -/
theorem lookup_moves_on
    (hcall : (start config session responders).Brought deeds k
      (.call label (.instrument search ticker) tell)) :
    ∃ duration,
      (∃ r, (start config session responders).board.Answers
        ((start config session responders).history (deeds ++ [.advance duration])) k r) ∨
      (linesOf k 0 ((start config session responders).ledger deeds)).length <
        (linesOf k 0 ((start config session responders).ledger
          (deeds ++ [.advance duration]))).length := by
  have hord := orderly_board_start (ρ := ρ) config session responders
  obtain ⟨legs, -, ⟨c, -, -, ex, f, -, hlines, -⟩ | ⟨found, htold, -⟩⟩ :=
    (trod_of_lookup hticker hcall).search
  · have hline := mem_linesOf.mp (hlines ▸ List.mem_append_right _ List.mem_cons_self)
    obtain ⟨duration, hlapsed⟩ := exists_lapsed hline
    refine ⟨duration, ?_⟩
    obtain ⟨legs', -, ⟨c', hc', -, ex', f', he, hlines', -⟩ | ⟨found, htold, -⟩⟩ :=
      (trod_of_lookup hticker (hcall.append [.advance duration])).search
    · refine .inr (Nat.lt_of_not_le fun hle => ?_)
      have hsame :=
        (linesOf_ledger_append (start config session responders) deeds [.advance duration]
        k).eq_of_length_le hle
      rw [hlines, hlines'] at hsame
      obtain ⟨rfl, -⟩ := Prod.mk.inj (List.cons.inj (List.append_inj' hsame rfl).2).1
      exact exchange?_ne_of_lapsed orderly_course minded_course
        (quiet_course hord (quiet_board_start config session responders) _) watched_course
          hlapsed hc'
        (exchange?_of_errand? he)
    · exact .inl ⟨_, htold⟩
  · exact ⟨0, .inl ⟨_, history_append _ deeds _ ▸ htold.append_right _⟩⟩

/-- A lookup answers, if only by the time that passes, since there are only so many attempts. -/
theorem exists_answer_of_lookup (n : Nat)
    (hcall : (start config session responders).Brought deeds k
      (.call label (.instrument search ticker) tell))
    (hfew : search.families.length <
      (linesOf k 0 ((start config session responders).ledger deeds)).length + n) :
    ∃ durations : List Nat, ∃ r, (start config session responders).board.Answers
      ((start config session responders).history (deeds ++ durations.map .advance)) k r := by
  induction n generalizing deeds with
  | zero =>
    have hmost := (trod_of_lookup hticker hcall).goesThrough.inOrder.length_le
    rw [List.length_map, List.length_map] at hmost
    exact absurd hfew (Nat.not_lt.mpr hmost)
  | succ n ih =>
    obtain ⟨duration, ⟨r, hanswers⟩ | hmore⟩ := lookup_moves_on hticker hcall
    · exact ⟨[duration], r, hanswers⟩
    · obtain ⟨durations, r, hanswers⟩ := ih (hcall.append [.advance duration]) (by omega)
      rw [List.append_assoc] at hanswers
      exact ⟨duration :: durations, r, hanswers⟩

end Course

/-- **The lookup of a ticker.** In every course a lookup goes through its families in order, and
makes the next attempt once the one before has failed; it makes none after one was answered, and
fails only by the deadline or with the connection. Sooner or later it answers, and is then
successful exactly if it has an id, which is that of the ticker in the message that answered its
last attempt; what it tells besides are the transcripts of all its attempts, in their order. -/
theorem lookup_goes_through_families (config : VenueConfig) (session : SessionScript)
    (responders : List Responder) (deeds : List (Deed ρ)) {k : Nat} {label : String}
    {search : Instrument.Search} {ticker : String} {tell : CallResult → ρ}
    (hticker : Text.trim ticker ≠ "")
    (hcall : (start config session responders).Brought deeds k
      (.call label (.instrument search ticker) tell)) :
    let b := start config session responders
    b.LooksUp deeds k search.families (Text.trim ticker) tell ∧
      ∃ durations : List Nat, ∃ found,
        b.board.Answers (b.history (deeds ++ durations.map .advance)) k
          (tell (.ok (.instrument found))) := by
  intro b
  refine ⟨looksUp_of_brought hticker hcall, ?_⟩
  obtain ⟨durations, r, hanswers⟩ :=
    exists_answer_of_lookup hticker (search.families.length + 1) hcall (by omega)
  obtain ⟨found, legs, rfl, -⟩ :=
    (looksUp_of_brought hticker (hcall.append _)).answers r hanswers
  exact ⟨durations, found, hanswers⟩

end Broker

namespace Service

open Broker

/-- A list of instruments that has the ticker of two currencies. -/
def listing : Json :=
  .object [("name", .string "instruments"), ("msg", .object [("instruments",
    .array [.object [("ticker", .string "EURUSD"), ("id", .integer 77)]])])]

/-- A ticker is looked up in all families; the first attempt runs into its deadline, and then a
list of instruments comes in. -/
def lookingTwice : List (Deed CallResult) :=
  [.call "a" (.instrument .auto " eurusd ") id, .advance 7000, .wire (.push listing),
    .advance 100]

/-- What a lookup answers. -/
def foundBy : CallResult → Option Resolved
  | .ok (.instrument found) => some found
  | _ => none

/-- The second attempt is answered with the list. -/
theorem second_attempt_finds :
    Text.trim " eurusd " = "eurusd" ∧
      (fresh.course lookingTwice).board.reports.map (fun r => (r.label, foundBy r.report)) =
        [("a", some ⟨true, some "77", [listing]⟩)] ∧
      (fresh.ledger lookingTwice).length = 2 ∧
      fresh.LooksUp lookingTwice 0 [.digitalOption, .fxOption] "eurusd" id ∧
      ∃ durations : List Nat, ∃ found, fresh.board.Answers
        (fresh.history (lookingTwice ++ durations.map .advance)) 0
          (.ok (.instrument found)) := by
  have hbrought : fresh.Brought lookingTwice 0 (.call "a" (.instrument .auto " eurusd ") id) :=
    ⟨[], lookingTwice.drop 1, rfl, rfl⟩
  have htrim : Text.trim " eurusd " = "eurusd" := by decide +kernel
  have hlooks :=
    lookup_goes_through_families {} loggedIn [] lookingTwice (by rw [htrim]; decide) hbrought
  rw [htrim] at hlooks
  exact ⟨htrim, by decide +kernel, by decide +kernel, hlooks⟩

end Service

end VenueLink

import VenueLink.Proofs.Calendar.Range
import VenueLink.Proofs.Calendar.ReadBack

/-!
# Instants that are read back

The text of an instant is read back as that instant, to the nanosecond, leap seconds included.
It has no offset, so what is read is the day of the date and the second of the day themselves:
`Date.toDays` undoes `Date.ofDays?`, in eras, years of an era and days of a year. Not every
timestamp is an instant: its second must be one of the day, and only the last second of a minute
may have more than a thousand million nanoseconds.

## Main results

* `Date.toDays_of_ofDays?`: the days to a date are those it was found by.
* `Timestamp.isInstant_of_ofText?`: what is read from a text is an instant.
* `Timestamp.ofText?_text`: an instant is read back from its text.
-/

namespace VenueLink

open Calendar Text

namespace Date

/-- An era of 400 years has the same days whenever it is. -/
theorem daysToYear_add_era (y : Nat) (era : Int) (hy : y < 400) :
    daysToYear (y + era * 400) = era * 146097 + daysToYearOfEra y := by
  unfold daysToYear daysToYearOfEra
  omega

/-- A date has the year, month and day of which it is made. -/
theorem make?_eq_some {year : Int} {month day : Nat} {d : Date}
    (h : make? year month day = some d) : d.year = year ∧ d.month = month ∧ d.day = day := by
  unfold make? at h
  split at h
  · cases h
    exact ⟨rfl, rfl, rfl⟩
  · cases h

/-- The days to a date are those it was found by. -/
theorem toDays_of_ofDays? {days : Int} {d : Date} (h : ofDays? days = some d) :
    d.toDays = days := by
  obtain ⟨era, hera⟩ : ∃ era, era = (days + 719468) / 146097 := ⟨_, rfl⟩
  obtain ⟨day, hday⟩ : ∃ day, day = ((days + 719468) % 146097).toNat := ⟨_, rfl⟩
  have hlt : day < 146097 := by omega
  obtain ⟨hy, hle, hn⟩ := yearOfEra_spec hlt
  obtain ⟨n, hn'⟩ : ∃ n, n = day - daysToYearOfEra (yearOfEra day) := ⟨_, rfl⟩
  obtain ⟨m, hm⟩ : ∃ m, m = (5 * n + 2) / 153 := ⟨_, rfl⟩
  have hunfold : ofDays? days = make?
      (if (if m < 10 then m + 3 else m - 9) ≤ 2 then (yearOfEra day : Int) + era * 400 + 1
        else yearOfEra day + era * 400)
      (if m < 10 then m + 3 else m - 9) (n - daysToMonth m + 1) := by
    rw [hm, hn', hera, hday]
    rfl
  rw [hunfold] at h
  obtain ⟨hyear, hmonth, hdate⟩ := make?_eq_some h
  have hm12 : m < 12 := by omega
  -- the month is counted from March again, and so is the year
  have hback : (d.month + 9) % 12 = m := by
    rw [hmonth]
    split <;> omega
  have hmarch :
      (if d.month ≤ 2 then d.year - 1 else d.year) = (yearOfEra day : Int) + era * 400 := by
    rw [hmonth, hyear]
    by_cases hfirst : (if m < 10 then m + 3 else m - 9) ≤ 2
    · rw [if_pos hfirst, if_pos hfirst, Int.add_sub_cancel]
    · rw [if_neg hfirst, if_neg hfirst]
  have hstart : daysToMonth m ≤ n := by
    unfold daysToMonth
    omega
  rw [toDays, hback, hmarch, daysToYear_add_era _ _ hy, hdate]
  omega

end Date

namespace Timestamp

/-- The timestamp is an instant: a day that can be counted, a second of it, and nanoseconds,
where only the last second of a minute may be followed by a leap second. -/
structure IsInstant (t : Timestamp) : Prop where
  day : ∃ days, Date.ofDays? days = some t.date
  second_lt : t.second < 86400
  nanos_lt : t.nanos < 1000000000 ∨ t.nanos < 2000000000 ∧ t.second % 60 = 59

/-! ### What is read -/

/-- Digits after a number make one below the next number with as many zeros. -/
theorem ofDigitChars_lt {ds : List Char} (hds : ∀ c ∈ ds, c.isDigit = true) (n : Nat) :
    Nat.ofDigitChars 10 ds n < (n + 1) * 10 ^ ds.length := by
  induction ds generalizing n with
  | nil => simp
  | cons c rest ih =>
    obtain ⟨hlow, hhigh⟩ := toNat_of_isDigit (hds c List.mem_cons_self)
    have hzero : ('0' : Char).toNat = 48 := rfl
    rw [Nat.ofDigitChars_cons, List.length_cons, Nat.pow_succ', ← Nat.mul_assoc]
    refine Nat.lt_of_lt_of_le (ih (fun d hd => hds d (List.mem_cons_of_mem c hd)) _) ?_
    exact Nat.mul_le_mul_right _ (by omega)

/-- The number of some digits is below the power of ten with as many zeros. -/
theorem digitsValue_lt {ds : List Char} (hds : ∀ c ∈ ds, c.isDigit = true) :
    digitsValue ds < 10 ^ ds.length := by
  have hlt := ofDigitChars_lt hds 0
  rwa [Nat.zero_add, Nat.one_mul] at hlt

/-- A fraction of a second is less than a second. -/
theorem fraction?_lt {cs rest : List Char} {nanos : Nat}
    (h : fraction? cs = some (nanos, rest)) : nanos < 1000000000 := by
  rw [fraction?.eq_def] at h
  split at h
  next ds =>
    dsimp only at h
    split at h
    · cases h
    · cases h
      have hkept : ∀ c ∈ (ds.takeWhile Char.isDigit).take 9, c.isDigit = true := fun c hc =>
        List.all_eq_true.mp List.all_takeWhile c (List.mem_of_mem_take hc)
      have hlength : ((ds.takeWhile Char.isDigit).take 9).length ≤ 9 := List.length_take_le 9 _
      calc digitsValue ((ds.takeWhile Char.isDigit).take 9) *
            Nat.pow 10 (9 - ((ds.takeWhile Char.isDigit).take 9).length)
          < 10 ^ ((ds.takeWhile Char.isDigit).take 9).length *
            10 ^ (9 - ((ds.takeWhile Char.isDigit).take 9).length) :=
            Nat.mul_lt_mul_of_pos_right (digitsValue_lt hkept) (Nat.pow_pos (by decide))
        _ = 10 ^ 9 := by rw [← Nat.pow_add, Nat.add_sub_cancel' hlength]
  · cases h
    decide

/-- An offset has whole minutes. -/
theorem offsetSize?_mod {cs rest : List Char} {n : Nat} (h : offsetSize? cs = some (n, rest)) :
    n % 60 = 0 := by
  rw [offsetSize?.eq_def] at h
  split at h
  · split at h
    · split at h
      · split at h
        · cases h
          omega
        · cases h
      · cases h
    · cases h
  · cases h

/-- An offset is one of whole minutes. -/
theorem offset?_mod {cs rest : List Char} {o : Int} (h : offset? cs = some (o, rest)) :
    o % 60 = 0 := by
  have hsize : ∀ (f : Nat → Int), (∀ n, n % 60 = 0 → f n % 60 = 0) → ∀ {cs : List Char},
      (offsetSize? cs).map (fun p => (f p.1, p.2)) = some (o, rest) → o % 60 = 0 := by
    intro f hf cs h
    obtain ⟨⟨n, rest'⟩, hn, heq⟩ := Option.map_eq_some_iff.mp h
    cases heq
    exact hf n (offsetSize?_mod hn)
  rw [offset?.eq_def] at h
  split at h
  · cases h
    rfl
  · cases h
    rfl
  · exact hsize (fun n => n) (fun n hn => by omega) h
  · exact hsize (fun n => -n) (fun n hn => by omega) h
  · exact hsize (fun n => -n) (fun n hn => by omega) h
  · split at h
    · cases h
      rfl
    · cases h
  · cases h

/-- A time at an offset is an instant, with a leap second only at the end of a minute. -/
theorem isInstant_of_atOffset? {date : Date} {second nanos : Nat} {o : Int} {t : Timestamp}
    (h : atOffset? date second nanos o = some t) (ho : o % 60 = 0)
    (hnanos : nanos < 1000000000 ∨ nanos < 2000000000 ∧ second % 60 = 59) : t.IsInstant := by
  unfold atOffset? at h
  split at h
  · cases h
  · obtain ⟨day, hday, heq⟩ := Option.bind_eq_some_iff.mp h
    cases heq
    refine ⟨⟨_, hday⟩, ?_, hnanos.imp_right fun ⟨hlt, hlast⟩ => ⟨hlt, ?_⟩⟩
    · dsimp only
      omega
    · dsimp only
      omega

/-- What is read from a text is an instant. -/
theorem isInstant_of_ofText? {s : String} {t : Timestamp} (h : ofText? s = some t) :
    t.IsInstant := by
  simp only [ofText?, Option.bind_eq_bind] at h
  obtain ⟨⟨date, cs⟩, -, h⟩ := Option.bind_eq_some_iff.mp h
  cases cs with
  | nil => cases h
  | cons c cs =>
  dsimp only at h
  by_cases hmark : (c = 'T' || c = 't' || isBlank c) = true
  case neg =>
    rw [if_neg hmark] at h
    cases h
  rw [if_pos hmark, Option.bind_some] at h
  obtain ⟨⟨hour, cs⟩, -, h⟩ := Option.bind_eq_some_iff.mp h
  obtain ⟨cs, -, h⟩ := Option.bind_eq_some_iff.mp h
  obtain ⟨⟨minute, cs⟩, -, h⟩ := Option.bind_eq_some_iff.mp h
  obtain ⟨cs, -, h⟩ := Option.bind_eq_some_iff.mp h
  obtain ⟨⟨second, cs⟩, -, h⟩ := Option.bind_eq_some_iff.mp h
  obtain ⟨⟨nanos, cs⟩, hnanos, h⟩ := Option.bind_eq_some_iff.mp h
  obtain ⟨⟨o, cs⟩, ho, h⟩ := Option.bind_eq_some_iff.mp h
  have hlt := fraction?_lt hnanos
  have hmod := offset?_mod ho
  split at h
  · cases h
  · split at h
    · exact isInstant_of_atOffset? h hmod (.inr (by omega))
    · exact isInstant_of_atOffset? h hmod (.inl hlt)

/-! ### What is read back -/

/-- A part of a time with two digits is read back. -/
theorem part?_padded {limit n : Nat} (hlimit : limit < 100) (hn : n ≤ limit)
    (rest : List Char) : part? limit (padded 2 n ++ rest) = some (n, rest) := by
  rw [part?, number?_padded (by decide) (by omega), Option.filter_some,
    if_pos (decide_eq_true hn)]

/-- Digits behind a point are so many nanoseconds as they have at nine places. -/
theorem fraction?_padded {width n : Nat} (hwidth : 0 < width) (hle : width ≤ 9)
    (hn : n < 10 ^ width) :
    fraction? ('.' :: padded width n ++ ['Z']) = some (n * 10 ^ (9 - width), ['Z']) := by
  obtain ⟨htake, hdrop⟩ := span_padded width n (c := 'Z') (by decide) []
  have hlength := length_padded hwidth hn
  have hkept : (padded width n).take 9 = padded width n := List.take_of_length_le (by omega)
  rw [List.cons_append, fraction?, htake, hdrop, if_neg (by simp [padded_ne_nil]), hkept,
    digitsValue_padded, hlength]
  rfl

/-- A fraction is read back, however few digits it is written with. -/
theorem fraction?_fractionText {nanos : Nat} (h : nanos < 1000000000) :
    fraction? (fractionText nanos ++ ['Z']) = some (nanos, ['Z']) := by
  rw [fractionText]
  split
  next hzero =>
    rw [hzero]
    rfl
  next =>
    split
    next hmilli =>
      rw [fraction?_padded (by decide) (by decide) (show nanos / 1000000 < 10 ^ 3 by omega),
        show nanos / 1000000 * 10 ^ (9 - 3) = nanos by omega]
    next =>
      split
      next hmicro =>
        rw [fraction?_padded (by decide) (by decide) (show nanos / 1000 < 10 ^ 6 by omega),
          show nanos / 1000 * 10 ^ (9 - 6) = nanos by omega]
      next =>
        rw [fraction?_padded (by decide) (by decide) (show nanos < 10 ^ 9 by omega),
          show nanos * 10 ^ (9 - 9) = nanos by omega]

/-- A date and a time of day in universal time are read as they are written; the second 60 is
that after the last one of its minute. -/
theorem ofText?_parts (d : Date) {hour minute second nanos : Nat} (hhour : hour ≤ 23)
    (hminute : minute ≤ 59) (hsecond : second ≤ 60) (hnanos : nanos < 1000000000) :
    ofText? (String.ofList (d.chars ++ 'T' :: padded 2 hour ++ ':' :: padded 2 minute ++
      ':' :: padded 2 second ++ fractionText nanos ++ ['Z'])) =
      if second = 60 then atOffset? d (hour * 3600 + minute * 60 + 59) (nanos + 1000000000) 0
      else atOffset? d (hour * 3600 + minute * 60 + second) nanos 0 := by
  have hgap : ∀ cs, skipBlank ('-' :: cs) = '-' :: cs := fun cs => skipBlank_cons (by decide) cs
  have hcolon : ∀ cs, literal? ':' (skipBlank (':' :: cs)) = some cs := fun cs => by
    rw [skipBlank_cons (by decide)]
    rfl
  have hzone : offset? (skipBlank ['Z']) = some (0, []) := rfl
  have hmark : ('T' = 'T' || 'T' = 't' || isBlank 'T') = true := rfl
  rw [ofText?, String.toList_ofList]
  simp only [List.append_assoc, List.cons_append, Option.bind_eq_bind]
  rw [Date.scan?_chars _ hgap, Option.bind_some]
  dsimp only
  rw [if_pos hmark, Option.bind_some, part?_padded (by decide) hhour, Option.bind_some, hcolon,
    Option.bind_some, part?_padded (by decide) hminute, Option.bind_some, hcolon,
    Option.bind_some, part?_padded (by decide) hsecond, Option.bind_some,
    fraction?_fractionText hnanos, Option.bind_some, hzone]
  rfl

/-- An instant is its own time without an offset. -/
theorem atOffset?_self {t : Timestamp} (h : t.IsInstant) :
    atOffset? t.date t.second t.nanos 0 = some t := by
  obtain ⟨days, hdays⟩ := h.day
  have hlt := h.second_lt
  have htotal : (days * 86400 + t.second - 0) / 86400 = days := by omega
  have hsecond : ((days * 86400 + t.second - 0) % 86400).toNat = t.second := by omega
  rw [atOffset?, if_neg (by decide), Date.toDays_of_ofDays? hdays]
  dsimp only
  rw [htotal, hdays, hsecond]
  rfl

/-- An instant is read back from its text. -/
theorem ofText?_text {t : Timestamp} (h : t.IsInstant) : ofText? t.text = some t := by
  have hlt := h.second_lt
  have hself := atOffset?_self h
  rw [text]
  dsimp only
  rcases Nat.lt_or_ge t.nanos 1000000000 with hnanos | hleap
  · rw [if_pos hnanos]
    dsimp only
    rw [ofText?_parts t.date (by omega) (by omega) (by omega) hnanos, if_neg (by omega),
      show t.second / 3600 * 3600 + t.second / 60 % 60 * 60 + t.second % 60 = t.second by
        omega, hself]
  · obtain ⟨hnanos, hlast⟩ := h.nanos_lt.resolve_left (by omega)
    rw [if_neg (by omega)]
    dsimp only
    rw [ofText?_parts t.date (by omega) (by omega) (by omega) (by omega), if_pos (by omega),
      show t.second / 3600 * 3600 + t.second / 60 % 60 * 60 + 59 = t.second by omega,
      Nat.sub_add_cancel hleap, hself]

end Timestamp

end VenueLink

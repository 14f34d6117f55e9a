import VenueLink.Calendar.Date
import VenueLink.Proofs.Text.ReadBack

/-!
# Dates that are read back

The text of a date is read back as that date, both where blanks may stand around its numbers and
where they may not, whatever its year: `Date.ofText?_text`, `Date.ofQuery?_text`.
-/

namespace VenueLink

namespace Calendar

open Text

/-- Digits are not passed over as blanks. -/
theorem skipBlank_of_isDigit {ds : List Char} (hne : ds ≠ []) (h : ∀ c ∈ ds, c.isDigit = true)
    (rest : List Char) : skipBlank (ds ++ rest) = ds ++ rest := by
  obtain ⟨c, cs, rfl⟩ := List.exists_cons_of_ne_nil hne
  exact skipBlank_cons (isBlank_of_isDigit (h c List.mem_cons_self)) _

/-- A number that is written with as many digits as may be read is read back, whatever follows.
-/
theorem number?_padded {limit n : Nat} (hlimit : 0 < limit) (h : n < 10 ^ limit)
    (rest : List Char) : number? limit (padded limit n ++ rest) = some (n, rest) := by
  have hdigits : ∀ c ∈ padded limit n, c.isDigit = true := fun c hc => isDigit_of_mem_padded hc
  have hspan : spanDigits limit (padded limit n ++ rest) = (padded limit n, rest) := by
    rw [spanDigits, List.take_left' (length_padded hlimit h),
      List.takeWhile_eq_self_iff.mpr hdigits, List.drop_left]
  rw [number?, skipBlank_of_isDigit (padded_ne_nil _ _) hdigits, hspan]
  dsimp only
  rw [digitsValue_padded, if_neg (by simp [padded_ne_nil])]

/-- The digits of a number up to the first character that is none. -/
theorem span_padded (width n : Nat) {c : Char} (hc : c.isDigit = false) (rest : List Char) :
    (padded width n ++ c :: rest).takeWhile Char.isDigit = padded width n ∧
      (padded width n ++ c :: rest).dropWhile Char.isDigit = c :: rest := by
  have hdigits : ∀ c ∈ padded width n, c.isDigit = true := fun c hc => isDigit_of_mem_padded hc
  constructor
  · rw [List.takeWhile_append_of_pos hdigits, List.takeWhile_cons_of_neg (by simp [hc]),
      List.append_nil]
  · rw [List.dropWhile_append_of_pos hdigits, List.dropWhile_cons_of_neg (by simp [hc])]

/-- A year after a minus is negative. -/
theorem year?_minus (cs : List Char) : year? ('-' :: cs) =
    if (cs.takeWhile Char.isDigit).isEmpty then none
    else some (-(digitsValue (cs.takeWhile Char.isDigit) : Int), cs.dropWhile Char.isDigit) :=
      rfl

/-- A year after a plus is not. -/
theorem year?_plus (cs : List Char) : year? ('+' :: cs) =
    if (cs.takeWhile Char.isDigit).isEmpty then none
    else some ((digitsValue (cs.takeWhile Char.isDigit) : Int), cs.dropWhile Char.isDigit) :=
      rfl

/-- A year is read back, whatever its sign and length. -/
theorem year?_yearText (year : Int) (rest : List Char) :
    year? (Date.yearText year ++ '-' :: rest) = some (year, '-' :: rest) := by
  rw [Date.yearText]
  split
  next hplain =>
    simp only [Bool.and_eq_true, decide_eq_true_eq] at hplain
    have hdigits : ∀ c ∈ padded 4 year.toNat, c.isDigit = true :=
      fun c hc => isDigit_of_mem_padded hc
    have hnumber :=
      number?_padded (show 0 < 4 by decide) (n := year.toNat) (by omega) ('-' :: rest)
    have hskip := skipBlank_of_isDigit (padded_ne_nil 4 year.toNat) hdigits ('-' :: rest)
    obtain ⟨c, cs, hcons⟩ := List.exists_cons_of_ne_nil (padded_ne_nil 4 year.toNat)
    have hc : c.isDigit = true := hdigits c (hcons ▸ List.mem_cons_self)
    rw [year?, hskip, hcons, List.cons_append]
    rw [hcons, List.cons_append] at hnumber
    split
    next heq =>
      obtain ⟨rfl, -⟩ := List.cons.inj heq
      cases hc
    next heq =>
      obtain ⟨rfl, -⟩ := List.cons.inj heq
      cases hc
    next =>
      rw [hnumber, Option.map_some]
      simp [Int.toNat_of_nonneg hplain.1]
  next =>
    obtain ⟨htake, hdrop⟩ := span_padded 4 year.natAbs (c := '-') (by decide) rest
    have hne : (padded 4 year.natAbs).isEmpty = false := by simp [padded_ne_nil]
    rcases Int.lt_or_le year 0 with hneg | hpos
    · rw [if_pos hneg, List.cons_append, year?_minus, htake, hdrop, hne, digitsValue_padded,
        if_neg (by decide), show -(year.natAbs : Int) = year by omega]
    · rw [if_neg (by omega), List.cons_append, year?_plus, htake, hdrop, hne,
        digitsValue_padded, if_neg (by decide), show (year.natAbs : Int) = year by omega]

/-- No month has more than 31 days. -/
theorem monthLength_le (year : Int) (month : Nat) : monthLength year month ≤ 31 := by
  unfold monthLength
  split <;> (try split) <;> omega

/-- A month with days is one of the twelve. -/
theorem le_of_monthLength_pos {year : Int} {month : Nat} (h : 0 < monthLength year month) :
    month ≤ 12 := by
  unfold monthLength at h
  split at h <;> omega

end Calendar

namespace Date

open Calendar

/-- A date is made of its year, month and day. -/
theorem make?_self (d : Date) : make? d.year d.month d.day = some d :=
  dif_pos d.isDay

/-- The text of a date is read back, whatever may be passed over in front of a `-`, and whatever
follows. -/
theorem scan?_chars (gap : List Char → List Char) (hgap : ∀ cs, gap ('-' :: cs) = '-' :: cs)
    (d : Date) (rest : List Char) : scan? gap (d.chars ++ rest) = some (d, rest) := by
  obtain ⟨-, -, hpos, hday⟩ := d.isDay
  have hmonth := le_of_monthLength_pos (Nat.lt_of_lt_of_le hpos hday)
  have hlength := monthLength_le d.year d.month
  rw [chars, scan?]
  simp only [List.append_assoc, List.cons_append, year?_yearText, hgap, literal?, if_true,
    number?_padded (show 0 < 2 by decide) (show d.month < 10 ^ 2 by omega),
    number?_padded (show 0 < 2 by decide) (show d.day < 10 ^ 2 by omega), Option.bind_eq_bind,
    Option.bind_some, make?_self]

/-- The text of a date is read back in a query. -/
theorem ofQuery?_text (d : Date) : ofQuery? d.text = some d := by
  have hscan := scan?_chars id (fun _ => rfl) d []
  rw [List.append_nil] at hscan
  simp [ofQuery?, text, hscan]

/-- It is read back in a body alike. -/
theorem ofText?_text (d : Date) : ofText? d.text = some d := by
  have hscan := scan?_chars Text.skipBlank (fun cs => Text.skipBlank_cons (by decide) cs) d []
  rw [List.append_nil] at hscan
  rw [ofText?, text, String.toList_ofList, hscan]
  rfl

end Date

end VenueLink

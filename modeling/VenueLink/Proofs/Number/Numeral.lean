import VenueLink.Number.Literal
import VenueLink.Proofs.Number.Rounding
import VenueLink.Proofs.Text.ReadBack

/-!
# Doubles read from a text

Whatever text a double is read from, its mantissa and exponent are those of a double. An integer
in decimal is read as the double nearest to it: its digits are none of the words for what is no
number, they are all in front of the point, and no power of ten scales them.

## Main results

* `proper_ofText?`: what is read from a text is a double.
* `ofText?_of_readInt?`: how an integer in decimal is read.
-/

namespace VenueLink.Double

open Text

/-- The double nearest to a decimal is proper. -/
theorem proper_ofDecimal (negative : Bool) (digits : Nat) (exponent : Int) :
    (ofDecimal negative digits exponent).Proper := by
  rw [ofDecimal]
  split
  · exact proper_zero negative
  · split
    · trivial
    · split
      · exact proper_zero negative
      · exact proper_nearest _ _ (Nat.pow_pos (by decide))

/-- What is read from a text is proper. -/
theorem proper_readUnsigned? {negative : Bool} {cs : List Char} {d : Double}
    (h : readUnsigned? negative cs = some d) : d.Proper := by
  rw [readUnsigned?] at h
  split at h
  · obtain rfl := Option.some.inj h
    trivial
  · split at h
    · obtain rfl := Option.some.inj h
      trivial
    · simp only [readMagnitude?] at h
      obtain ⟨-, h⟩ := Option.ite_none_left_eq_some.mp h
      obtain ⟨e, -, rfl⟩ := Option.map_eq_some_iff.mp h
      exact proper_ofDecimal _ _ _

/-- What is read from a text is a double. -/
theorem proper_ofText? {s : String} {d : Double} (h : ofText? s = some d) : d.Proper := by
  rw [ofText?] at h
  split at h <;> exact proper_readUnsigned? h

/-- Digits have no case. -/
theorem toLower_of_isDigit {c : Char} (h : c.isDigit = true) : c.toLower = c := by
  refine dif_neg ?_
  rintro ⟨hge, -⟩
  have := (toNat_of_isDigit h).2
  have : 65 ≤ c.toNat := hge
  omega

/-- No digits are one of the words for what is no number. -/
theorem lowerAscii_digits {ds : List Char} (hds : ∀ c ∈ ds, c.isDigit = true) :
    lowerAscii (String.ofList ds) = String.ofList ds := by
  rw [lowerAscii, String.toList_ofList,
    List.map_congr_left fun c hc => toLower_of_isDigit (hds c hc), List.map_id']

/-- A natural number that is not too large is not scaled. -/
theorem ofDecimal_zero (negative : Bool) {n : Nat} (h : (Nat.toDigits 10 n).length ≤ 310) :
    ofDecimal negative n 0 = nearest negative n 1 := by
  rw [ofDecimal]
  split
  next hzero => rw [hzero, nearest, if_pos rfl]
  next =>
    rw [if_neg (by omega), if_neg (by omega), Nat.pow_eq, Int.toNat_zero, Nat.mul_one]
    rfl

/-- Digits are read as the double nearest to their number. -/
theorem readUnsigned?_digits (negative : Bool) {ds : List Char} (hne : ds ≠ [])
    (hds : ∀ c ∈ ds, c.isDigit = true)
    (hsize : (Nat.toDigits 10 (digitsValue ds)).length ≤ 310) :
    readUnsigned? negative ds = some (nearest negative (digitsValue ds) 1) := by
  have hword : ∀ word : String, (∃ c ∈ word.toList, c.isDigit = false) →
      (lowerAscii (String.ofList ds) == word) = false := by
    rintro word ⟨c, hc, hdigit⟩
    rw [lowerAscii_digits hds, beq_eq_false_iff_ne]
    rintro rfl
    rw [String.toList_ofList] at hc
    simp [hds c hc] at hdigit
  have hwhole : ds.takeWhile Char.isDigit = ds := List.takeWhile_eq_self_iff.mpr hds
  have hrest : ds.dropWhile Char.isDigit = [] := List.dropWhile_eq_nil_iff.mpr hds
  rw [readUnsigned?, hword "inf" ⟨'i', by decide, by decide⟩,
    hword "infinity" ⟨'i', by decide, by decide⟩, hword "nan" ⟨'n', by decide, by decide⟩,
    readMagnitude?, hwhole, hrest]
  simpa [readExponent?, hne] using ofDecimal_zero negative hsize

/-- An integer in decimal is read as the double nearest to it. -/
theorem ofText?_of_readInt? {s : String} {i : Int} (h : readInt? s.toList = some i)
    (hi : (Nat.toDigits 10 i.natAbs).length ≤ 310) :
    ∃ negative, ofText? s = some (nearest negative i.natAbs 1) ∧
      i = if negative then -(i.natAbs : Int) else i.natAbs := by
  obtain ⟨sign, ds, hcs, hne, hds, hsign⟩ := readInt?_eq_some h
  have habs : i.natAbs = digitsValue ds := by
    rcases hsign with ⟨-, rfl⟩ | ⟨-, rfl⟩ <;> omega
  have hread := fun negative => readUnsigned?_digits negative hne hds (habs ▸ hi)
  rw [ofText?, hcs, habs]
  rcases hsign with ⟨rfl, hi⟩ | ⟨rfl | rfl, hi⟩
  · exact ⟨true, hread true, hi⟩
  · exact ⟨false, hread false, hi⟩
  · refine ⟨false, ?_, hi⟩
    obtain ⟨c, rest, rfl⟩ := List.exists_cons_of_ne_nil hne
    have hc := ne_sign_of_isDigit (hds c List.mem_cons_self)
    rw [List.nil_append]
    split
    next heq => exact absurd (List.cons.inj heq).1 hc.1
    next heq => exact absurd (List.cons.inj heq).1 hc.2
    next => exact hread false

end VenueLink.Double

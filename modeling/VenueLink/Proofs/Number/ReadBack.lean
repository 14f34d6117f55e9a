import VenueLink.Number.Decimal
import VenueLink.Proofs.Text.ReadBack

/-!
# Amounts that are read back

The text of an amount has all its places, and the digits of it fit, so that reading it stops
nowhere early: the digits in front of the point are taken up first
(`Decimal.readDigits_append`), then the point, and then as many digits behind it as the amount
has places.

## Main results

* `Decimal.ofText?_text`: an amount is read back from its text with its places.
-/

namespace VenueLink.Decimal

open Text

section Digits

variable {pointed started : Bool} {magnitude places : Nat} {ds : List Char}

/-- More digits make no smaller number. -/
theorem le_ofDigitChars (ds : List Char) (n : Nat) : n ≤ Nat.ofDigitChars 10 ds n := by
  rw [Nat.ofDigitChars_eq_ofDigitChars_zero]
  exact (Nat.le_mul_of_pos_left n (Nat.pow_pos (by decide))).trans (Nat.le_add_right _ _)

/-- A digit that fits, and with which the places are not yet used up if more follows, is taken
up. -/
theorem readDigits_cons {negative : Bool} {c : Char} (hc : c.isDigit = true) {cs : List Char}
    (hfits : 10 * magnitude + (c.toNat - '0'.toNat) < unitBound)
    (hroom : pointed = true → cs ≠ [] → places + 1 < 28) :
    readDigits negative pointed started magnitude places (c :: cs) =
      readDigits negative pointed true (10 * magnitude + (c.toNat - '0'.toNat))
        (if pointed then places + 1 else places) cs := by
  rw [Nat.mul_comm, show '0'.toNat = 48 from rfl] at hfits ⊢
  rw [readDigits, if_pos hc]
  dsimp only
  rw [if_neg (not_le.mpr hfits)]
  cases cs with
  | nil => rfl
  | cons d rest =>
    have hgoes :
        ¬(pointed && decide (28 ≤ if pointed = true then places + 1 else places)) = true := by
      cases pointed with
      | false => simp
      | true =>
        have := hroom rfl (List.cons_ne_nil d rest)
        simpa using by omega
    dsimp only
    rw [if_neg hgoes]

/-- Digits that fit are taken up. -/
theorem readDigits_append (negative : Bool) (hds : ∀ c ∈ ds, c.isDigit = true)
    (hfits : Nat.ofDigitChars 10 ds magnitude < unitBound) {rest : List Char}
    (hroom : pointed = true → places + ds.length + rest.length ≤ 28)
    (hne : started = true ∨ ds ≠ []) :
    readDigits negative pointed started magnitude places (ds ++ rest) =
      readDigits negative pointed true (Nat.ofDigitChars 10 ds magnitude)
        (if pointed then places + ds.length else places) rest := by
  induction ds generalizing magnitude places started with
  | nil =>
    have hstarted : started = true := hne.resolve_right fun h => h rfl
    subst hstarted
    simp
  | cons c cs ih =>
    rw [Nat.ofDigitChars_cons] at hfits ⊢
    have hnext := (le_ofDigitChars cs _).trans_lt hfits
    rw [List.cons_append, readDigits_cons (hds c List.mem_cons_self) hnext ?_,
      ih (fun c' hc' => hds c' (List.mem_cons_of_mem c hc')) hfits ?_ (.inl rfl)]
    · cases pointed with
      | false => rfl
      | true => simp [Nat.add_assoc, Nat.add_comm 1]
    · intro hpointed
      have := hroom hpointed
      rw [if_pos hpointed]
      rw [List.length_cons] at this
      omega
    · intro hpointed hcs
      have := hroom hpointed
      have hpos := List.length_pos_iff.mpr hcs
      rw [List.length_append] at hpos
      rw [List.length_cons] at this
      omega

end Digits

/-- A decimal is made of its units and places. -/
theorem make?_self (d : Decimal) : make? d.units d.places = some d :=
  dif_pos ⟨d.units_lt, d.places_le⟩

/-- The digits of an amount with the point among them. -/
theorem readDigits_padded (negative : Bool) {n places : Nat} (hn : n < unitBound)
    (hplaces : places ≤ 28) :
    let ds := padded (places + 1) n
    let whole := ds.length - places
    readDigits negative false false 0 0
        (ds.take whole ++ if places = 0 then [] else '.' :: ds.drop whole) =
      make? (signed negative n) places := by
  intro ds whole
  have hdigits : ∀ c ∈ ds, c.isDigit = true := fun c hc => isDigit_of_mem_padded hc
  have hlength : places + 1 ≤ ds.length := width_le_length_padded _ _
  have hvalue :
      Nat.ofDigitChars 10 (ds.drop whole) (Nat.ofDigitChars 10 (ds.take whole) 0) = n := by
    rw [← Nat.ofDigitChars_append, List.take_append_drop]
    exact digitsValue_padded _ _
  have hfits : Nat.ofDigitChars 10 (ds.take whole) 0 < unitBound :=
    (le_ofDigitChars _ _).trans_lt (hvalue ▸ hn)
  have hfront : ds.take whole ≠ [] := by
    rw [Ne, List.take_eq_nil_iff, not_or]
    exact ⟨by omega, List.ne_nil_of_length_pos (by omega)⟩
  rw [readDigits_append _ (fun c hc => hdigits c (List.mem_of_mem_take hc)) hfits (by simp)
    (.inr hfront), if_neg (by decide)]
  by_cases hzero : places = 0
  · have hall : ds.drop whole = [] := List.drop_eq_nil_iff.mpr (by omega)
    rw [hall, Nat.ofDigitChars_nil] at hvalue
    rw [if_pos hzero, hvalue, hzero]
    rfl
  · have hback : (ds.drop whole).length = places := by
      rw [List.length_drop]
      omega
    have hroom : true = true → 0 + (ds.drop whole).length + ([] : List Char).length ≤ 28 := by
      simpa [hback] using hplaces
    have hread := readDigits_append negative (fun c hc => hdigits c (List.mem_of_mem_drop hc))
      (hvalue ▸ hn) hroom (.inl rfl)
    rw [List.append_nil] at hread
    rw [if_neg hzero, readDigits, if_neg (by decide), if_pos (by decide), hread, hvalue, hback,
      if_pos rfl, Nat.zero_add]
    rfl

/-- A text that begins with a digit has no sign. -/
theorem ofPlain?_of_digits {ds : List Char} (hds : ∀ c ∈ ds, c.isDigit = true) (hne : ds ≠ [])
    (rest : List Char) :
    ofPlain? (ds ++ rest) = readDigits false false false 0 0 (ds ++ rest) := by
  obtain ⟨c, cs, rfl⟩ := List.exists_cons_of_ne_nil hne
  have hc := hds c List.mem_cons_self
  rw [List.cons_append, ofPlain?]
  · rintro rest heq
    cases heq
    exact absurd hc (by decide)
  · rintro rest heq
    cases heq
    exact absurd hc (by decide)

/-- The text of a decimal is read back. -/
theorem ofPlain?_text (d : Decimal) : ofPlain? d.text.toList = some d := by
  have hread := fun negative => readDigits_padded negative d.units_lt d.places_le
  have hlength := width_le_length_padded (d.places + 1) d.units.natAbs
  have hdigits : ∀ c ∈ (padded (d.places + 1) d.units.natAbs).take
      ((padded (d.places + 1) d.units.natAbs).length - d.places), c.isDigit = true :=
    fun c hc => isDigit_of_mem_padded (List.mem_of_mem_take hc)
  rw [text, String.toList_ofList, List.append_assoc]
  by_cases hneg : d.units < 0
  · have hsigned : signed true d.units.natAbs = d.units := by
      rw [signed, if_pos rfl]
      omega
    rw [if_pos hneg, List.singleton_append, ofPlain?, hread true, hsigned, make?_self]
  · have hsigned : signed false d.units.natAbs = d.units := by
      rw [signed, if_neg (by decide)]
      omega
    have hfront : (padded (d.places + 1) d.units.natAbs).take
        ((padded (d.places + 1) d.units.natAbs).length - d.places) ≠ [] := by
      rw [Ne, List.take_eq_nil_iff, not_or]
      exact ⟨by omega, padded_ne_nil _ _⟩
    rw [if_neg hneg, List.nil_append, ofPlain?_of_digits hdigits hfront, hread false, hsigned,
      make?_self]

/-- An amount is read back from its text, places and all. -/
theorem ofText?_text (d : Decimal) : ofText? d.text = some d := by
  rw [ofText?, ofPlain?_text]
  rfl

end VenueLink.Decimal

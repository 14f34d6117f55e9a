import VenueLink.Json.Lenient
import VenueLink.Proofs.Number.Numeral
import VenueLink.Proofs.Number.Rounding

/-!
# Integers as numbers and as texts

A venue may write an integer as a number or as a text in decimal. As a double, either stands for
the same number (`value?_of_writtenInt?`). As an integer, the number is read as it is, but the
text by way of its double: what is read from it is the integer rounded to 53 binary digits and
cut to the range. So the two are read alike if no digits are lost, and for the largest integer,
which is rounded up and then cut.

An integer that is read from any value at all is compared with that value in turn as doubles,
and is found equal to it exactly if the value has no fraction and is in the range.

## Main results

* `equals_ofInt_iff`: an integer, however it is written, is compared with another one by their
  doubles.
* `asInt?_of_text`: what is read as an integer from a text in decimal.
* `clamp_roundedInt_eq_iff`: the integers that are read from their text.
* `equals_asInt?_iff`: the values that are equal to what is read from them.
-/

namespace VenueLink

open Text Double

/-- The integers of 64 bits. -/
def Text.IsInt64 (i : Int) : Prop :=
  minInt64 ≤ i ∧ i ≤ maxInt64

instance (i : Int) : Decidable (IsInt64 i) :=
  inferInstanceAs (Decidable (_ ∧ _))

/-- An integer in decimal, with characters before and after it. -/
def Text.spaced (before after : List Char) (i : Int) : String :=
  String.ofList (before ++ (toString i).toList ++ after)

namespace Json

/-- The integer that a value writes: a number, or a text in decimal with any blanks around. -/
def writtenInt? : Json → Option Int
  | integer i => some i
  | string s => readInt? (trimChars s.toList)
  | _ => none

/-- A text writes an integer, whatever blanks are around it. -/
theorem writtenInt?_spaced {before after : List Char} (hbefore : ∀ c ∈ before, isBlank c = true)
    (hafter : ∀ c ∈ after, isBlank c = true) (i : Int) :
    (string (spaced before after i)).writtenInt? = some i := by
  rw [writtenInt?, spaced, String.toList_ofList,
    trimChars_around hbefore hafter fun _ => isBlank_of_mem_toString, readInt?_toString]

/-- The magnitude of a number of 64 bits is at most that of the least one. -/
theorem natAbs_le_of_isInt64 {i : Int} (h : IsInt64 i) : i.natAbs ≤ 2 ^ 63 := by
  obtain ⟨hlow, hhigh⟩ := h
  rw [minInt64] at hlow
  rw [maxInt64] at hhigh
  omega

/-- It is far below the largest double. -/
theorem log2_lt_of_isInt64 {i : Int} (h : IsInt64 i) : i.natAbs.log2 < 1023 := by
  rcases Nat.eq_zero_or_pos i.natAbs with hzero | hpos
  · rw [hzero]
    decide
  · have hlt : i.natAbs < 2 ^ 64 := (natAbs_le_of_isInt64 h).trans_lt (by decide)
    have := (Nat.log2_lt hpos.ne').mpr hlt
    omega

/-- It has no more digits than a double may have. -/
theorem length_toDigits_of_isInt64 {i : Int} (h : IsInt64 i) :
    (Nat.toDigits 10 i.natAbs).length ≤ 310 := by
  have hlt : i.natAbs < 10 ^ 19 := (natAbs_le_of_isInt64 h).trans_lt (by decide)
  have := (Nat.length_toDigits_le_iff (b := 10) (k := 19) (by decide) (by decide)).mpr hlt
  omega

/-- Rounding does not pass the magnitude of the least number. -/
theorem natAbs_roundedInt_le {i : Int} (h : IsInt64 i) : (roundedInt i).natAbs ≤ 2 ^ 63 := by
  rw [natAbs_roundedInt]
  exact roundedNat_le_two_pow (natAbs_le_of_isInt64 h)

/-- As a number or as a text, an integer is read as the double nearest to it. -/
theorem value?_of_writtenInt? {j : Json} {i : Int} (h : j.writtenInt? = some i)
    (hi : IsInt64 i) : ∃ x, j.asDouble? = some x ∧ x.value? = some (roundedInt i : ℚ) := by
  match j, h with
  | integer k, h =>
    obtain rfl := Option.some.inj h
    exact ⟨_, rfl, value?_ofInt (log2_lt_of_isInt64 hi)⟩
  | string s, h =>
    have hread : readInt? (trim s).toList = some i := by
      rw [trim, String.toList_ofList]
      exact h
    obtain ⟨negative, htext, hsign⟩ := ofText?_of_readInt? hread (length_toDigits_of_isInt64 hi)
    refine ⟨_, htext, ?_⟩
    rw [value?_nearest negative (log2_lt_of_isInt64 hi), roundedInt_signed hsign]
    push_cast
    rfl

/-- An integer is found equal to the ones that have its double. -/
theorem equals_ofInt_iff {j : Json} {i : Int} (h : j.writtenInt? = some i) (hi : IsInt64 i)
    {k : Int} (hk : IsInt64 k) :
    (∃ x, j.asDouble? = some x ∧ x.equals (.ofInt k) = true) ↔ roundedInt i = roundedInt k := by
  obtain ⟨x, hx, hvalue⟩ := value?_of_writtenInt? h hi
  simp only [hx, Option.some_inj, exists_eq_left',
    equals_iff hvalue (value?_ofInt (log2_lt_of_isInt64 hk)), Int.cast_inj]

/-- A number of 64 bits is read as it is. -/
theorem asInt?_integer {i : Int} (hi : IsInt64 i) : (integer i).asInt? = some i :=
  if_pos hi.2

/-- A text in decimal is rounded and then cut to the range. -/
theorem asInt?_of_text {s : String} {i : Int} (h : (string s).writtenInt? = some i)
    (hi : IsInt64 i) :
    (string s).asInt? = some (max minInt64 (min maxInt64 (roundedInt i))) := by
  obtain ⟨x, hx, hvalue⟩ := value?_of_writtenInt? h hi
  change (string s).asDouble?.map (·.truncate minInt64 maxInt64) = _
  rw [hx, Option.map_some, truncate_of_value hvalue]

/-- The integers that have a double of their own, and the largest integer, whose double is cut
to it. -/
theorem clamp_roundedInt_eq_iff {i : Int} (hi : IsInt64 i) :
    max minInt64 (min maxInt64 (roundedInt i)) = i ↔ IsExact i.natAbs ∨ i = maxInt64 := by
  have hle := natAbs_roundedInt_le hi
  -- the largest integer is rounded up to a power of two, which is out of range
  have hlast : i = maxInt64 → maxInt64 < roundedInt i := by
    rintro rfl
    decide
  obtain ⟨hlow, hhigh⟩ := hi
  rw [← roundedInt_eq_self_iff]
  rw [minInt64, maxInt64] at *
  omega

/-! ### What is read and what it is read from -/

/-- An integer has at most 64 bits, signed or unsigned, and a double the mantissa and exponent
of one. -/
def Representable : Json → Prop
  | integer i => minInt64 ≤ i ∧ i < 2 ^ 64
  | double x => x.Proper
  | _ => True

/-- As a double the value is an integer, and in the range of the integers of 64 bits or just
above it. -/
def IsWhole (j : Json) : Prop :=
  ∃ x, j.asDouble? = some x ∧ ∃ i : ℤ, x.value? = some (i : ℚ) ∧ i.natAbs ≤ 2 ^ 63

/-- A value that writes such a number is whole. -/
theorem isWhole_of_writtenInt? {j : Json} {i : Int} (h : j.writtenInt? = some i)
    (hi : IsInt64 i) : j.IsWhole := by
  obtain ⟨x, hx, hvalue⟩ := value?_of_writtenInt? h hi
  exact ⟨x, hx, roundedInt i, hvalue, natAbs_roundedInt_le hi⟩

/-- The double of a value that can be represented is proper. -/
theorem proper_asDouble? {j : Json} (hj : j.Representable) {x : Double}
    (h : j.asDouble? = some x) : x.Proper := by
  match j, hj, h with
  | integer i, _, h =>
    obtain rfl := Option.some.inj h
    exact proper_nearest _ _ Nat.one_pos
  | double y, hy, h =>
    obtain rfl := Option.some.inj h
    exact hy
  | string s, _, h => exact proper_ofText? h
  | bool b, _, h =>
    obtain rfl := Option.some.inj h
    cases b with
    | false => exact proper_zero false
    | true => exact proper_nearest false 1 Nat.one_pos

/-- A double is cut to a number of 64 bits. -/
theorem isInt64_truncate (x : Double) : IsInt64 (x.truncate minInt64 maxInt64) := by
  match x with
  | .nan => decide
  | .infinite negative => cases negative <;> decide
  | .finite s m e =>
    have hrange : minInt64 ≤ maxInt64 := by decide
    rw [truncate]
    exact ⟨le_max_left _ _, max_le hrange (min_le_left _ _)⟩

/-- An integer is read as it is or by way of the double. -/
theorem asInt?_cases {j : Json} {k : Int} (hk : j.asInt? = some k) :
    j = integer k ∧ k ≤ maxInt64 ∨
      ∃ x, j.asDouble? = some x ∧ x.truncate minInt64 maxInt64 = k := by
  match j, hk with
  | integer i, hk =>
    rw [asInt?] at hk
    split at hk
    next hle =>
      obtain rfl := Option.some.inj hk
      exact .inl ⟨rfl, hle⟩
    next => exact .inr ⟨_, rfl, Option.some.inj hk⟩
  | null, hk | bool _, hk | double _, hk | string _, hk | array _, hk | object _, hk =>
    exact .inr (Option.map_eq_some_iff.mp hk)

/-- A number that is read has 64 bits. -/
theorem isInt64_of_asInt? {j : Json} (hj : j.Representable) {k : Int} (hk : j.asInt? = some k) :
    IsInt64 k := by
  rcases asInt?_cases hk with ⟨rfl, hle⟩ | ⟨x, -, rfl⟩
  · exact ⟨hj.1, hle⟩
  · exact isInt64_truncate x

/-- What is read from a value is equal to it, as doubles, exactly if nothing is cut off. -/
theorem equals_asInt?_iff {j : Json} (hj : j.Representable) {k : Int} (hk : j.asInt? = some k) :
    (∃ x, j.asDouble? = some x ∧ x.equals (.ofInt k) = true) ↔ j.IsWhole := by
  have hint := isInt64_of_asInt? hj hk
  have hvalue := value?_ofInt (log2_lt_of_isInt64 hint)
  constructor
  · rintro ⟨x, hx, hequals⟩
    exact ⟨x, hx, roundedInt k, value?_of_equals hequals hvalue, natAbs_roundedInt_le hint⟩
  · rintro ⟨x, hx, i, hi, hle⟩
    refine ⟨x, hx, (equals_iff hi hvalue).mpr ?_⟩
    rcases asInt?_cases hk with ⟨rfl, -⟩ | ⟨y, hy, hcut⟩
    · obtain rfl := Option.some.inj hx
      exact Option.some.inj (hi.symm.trans hvalue)
    · obtain rfl := Option.some.inj (hx.symm.trans hy)
      rw [truncate_of_value hi] at hcut
      -- one number is cut and still equal to what is left: its neighbour in range has its
      -- double
      have hself : i = k ∨ i = 2 ^ 63 ∧ k = maxInt64 := by
        rw [minInt64, maxInt64] at *
        omega
      rcases hself with rfl | ⟨rfl, rfl⟩
      · rw [roundedInt_eq_self_iff.mpr (isExact_of_value (proper_asDouble? hj hx) hi)]
      · exact congrArg _ (by decide)

end Json

end VenueLink

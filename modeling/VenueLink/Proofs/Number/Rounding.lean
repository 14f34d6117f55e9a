import Mathlib.Algebra.Order.Field.Power
import Mathlib.Data.Int.Log
import Mathlib.Data.Rat.Floor
import Mathlib.Tactic.FieldSimp
import Mathlib.Tactic.GCongr
import Mathlib.Tactic.NormNum
import Mathlib.Tactic.Positivity
import VenueLink.Number.Double

/-!
# Doubles as numbers

A finite double stands for a rational number (`Double.value?`). Doubles are compared by these
numbers, and the double nearest to a natural number stands for that number cut to 53 binary
digits (`roundedNat`): the exponent is the one with which the mantissa has 53 bits, whatever is
then left of the number is the mantissa, and a carry into the next power of two does not change
what the double stands for.

## Main results

* `proper_nearest`: whatever is rounded to a double, mantissa and exponent are those of a
  double.
* `value?_ofInt`: the number that the double nearest to an integer stands for.
* `roundedNat_eq_self_iff`: which numbers are not changed by that.
* `roundedInt_inj`: integers that share their double with no other one.
* `equals_iff`, `truncate_of_value`: comparing doubles and cutting them to integers, in terms of
  numbers.
-/

namespace VenueLink.Double

/-- The number that a finite double stands for. -/
def value? : Double → Option ℚ
  | finite s m e => some ((if s then -1 else 1) * (m * 2 ^ e))
  | _ => none

/-- Mantissa and exponent are those of a double: all 53 bits are in use unless the exponent is
the smallest one. -/
def Proper : Double → Prop
  | finite _ m e => m < mantissaBound ∧ minExponent ≤ e ∧ e ≤ maxExponent ∧
      (mantissaBound / 2 ≤ m ∨ e = minExponent)
  | _ => True

/-- Zero is proper, with either sign. -/
theorem proper_zero (negative : Bool) : (finite negative 0 minExponent).Proper :=
  ⟨by decide, le_rfl, by decide, .inr rfl⟩

/-- A power of two is a fraction of two whole ones. -/
theorem two_zpow_eq (e : ℤ) : (2 : ℚ) ^ e = 2 ^ e.toNat / 2 ^ (-e).toNat := by
  rcases Int.le_total 0 e with h | h
  · obtain ⟨k, rfl⟩ := Int.eq_ofNat_of_zero_le h
    simp
  · obtain ⟨k, hk⟩ := Int.eq_ofNat_of_zero_le (Int.neg_nonneg.mpr h)
    obtain rfl : e = -k := by omega
    simp

/-! ### Rounding ratios -/

/-- A whole number of units is left alone. -/
theorem roundHalfEven_mul (k : Nat) {d : Nat} (hd : 0 < d) : roundHalfEven (k * d) d = k := by
  simp [roundHalfEven, hd]

/-- Rounding goes up to a whole number of units, but not beyond. -/
theorem roundHalfEven_le {n d k : Nat} (hd : 0 < d) (h : n ≤ k * d) :
    roundHalfEven n d ≤ k := by
  have hq : n / d ≤ k := Nat.div_le_of_le_mul (Nat.mul_comm d k ▸ h)
  rcases hq.lt_or_eq with hlt | rfl
  · rw [roundHalfEven]
    split
    · omega
    · split <;> omega
  · have hr : n % d = 0 := by
      have := Nat.div_add_mod' n d
      omega
    simp [roundHalfEven, hr, hd]

/-- Rounding does not fall below a whole number that is reached. -/
theorem le_roundHalfEven {n d k : Nat} (hd : 0 < d) (h : k * d ≤ n) :
    k ≤ roundHalfEven n d := by
  have hq : k ≤ n / d := (Nat.le_div_iff_mul_le hd).mpr h
  rw [roundHalfEven]
  split
  · exact hq
  · split <;> omega

/-- A mantissa has 53 bits. -/
theorem mantissaBound_eq : (mantissaBound : ℚ) = 2 ^ (53 : ℤ) := by
  norm_num [mantissaBound]

/-- A full mantissa has the highest of them. -/
theorem half_mantissaBound_eq : ((mantissaBound / 2 : Nat) : ℚ) = 2 ^ (52 : ℤ) := by
  norm_num [mantissaBound]

section Scaled

variable {n d : Nat}

/-- A denominator stays positive. -/
theorem scaled_snd_pos (n : Nat) (hd : 0 < d) (e : ℤ) : 0 < (scaled n d e).2 :=
  Nat.mul_pos hd (Nat.pow_pos (by decide))

/-- The ratio `n / d` in units of a power of two. -/
theorem scaled_fst_eq (n : Nat) (hd : 0 < d) (e : ℤ) :
    ((scaled n d e).1 : ℚ) = n / d / 2 ^ e * (scaled n d e).2 := by
  have hd' : (d : ℚ) ≠ 0 := by exact_mod_cast hd.ne'
  simp only [scaled, Nat.pow_eq]
  push_cast
  rw [two_zpow_eq]
  field_simp

/-- A scaled fraction is below a number when the fraction is below the number scaled back. -/
theorem scaled_fst_lt_iff (hd : 0 < d) {e : ℤ} {k : Nat} :
    (scaled n d e).1 < k * (scaled n d e).2 ↔ (n : ℚ) / d < k * 2 ^ e := by
  have hpos : (0 : ℚ) < (scaled n d e).2 := by exact_mod_cast scaled_snd_pos n hd e
  rw [← @Nat.cast_lt ℚ, scaled_fst_eq n hd, Nat.cast_mul, mul_lt_mul_iff_left₀ hpos,
    div_lt_iff₀ (by positivity)]

/-- It is above a number alike. -/
theorem le_scaled_fst_iff (hd : 0 < d) {e : ℤ} {k : Nat} :
    k * (scaled n d e).2 ≤ (scaled n d e).1 ↔ k * 2 ^ e ≤ (n : ℚ) / d := by
  rw [← not_lt, scaled_fst_lt_iff hd, not_lt]

/-- The exponent of a ratio is the one with which the mantissa has 53 bits, if it is not too
small. The logarithms of numerator and denominator give it up to one, and a trial division
decides. -/
theorem exponentOf_eq (hn : 0 < n) (hd : 0 < d) :
    exponentOf n d = max minExponent (Int.log 2 ((n : ℚ) / d) - 52) := by
  have hn' : (0 : ℚ) < n := by exact_mod_cast hn
  have hd' : (0 : ℚ) < d := by exact_mod_cast hd
  have hpos : (0 : ℚ) < n / d := div_pos hn' hd'
  have hnlog := Int.log_natCast (R := ℚ) 2 n
  have hdlog := Int.log_natCast (R := ℚ) 2 d
  rw [← Nat.log2_eq_log_two] at hnlog hdlog
  have hlow : (n.log2 : ℤ) - d.log2 - 1 ≤ Int.log 2 ((n : ℚ) / d) := by
    rw [← Int.zpow_le_iff_le_log (by decide) hpos, le_div_iff₀ hd']
    have hnle := Int.zpow_log_le_self (b := 2) (by decide) hn'
    have hdlt := Int.lt_zpow_succ_log_self (b := 2) (by decide) (d : ℚ)
    rw [hnlog] at hnle
    rw [hdlog] at hdlt
    refine le_trans ?_ hnle
    calc ((2 : ℕ) : ℚ) ^ ((n.log2 : ℤ) - d.log2 - 1) * d
        ≤ (2 : ℕ) ^ ((n.log2 : ℤ) - d.log2 - 1) * (2 : ℕ) ^ ((d.log2 : ℤ) + 1) := by gcongr
      _ = (2 : ℕ) ^ (n.log2 : ℤ) := by
        rw [← zpow_add₀ (by decide)]
        congr 1
        omega
  have hhigh : Int.log 2 ((n : ℚ) / d) < (n.log2 : ℤ) - d.log2 + 1 := by
    rw [← Int.lt_zpow_iff_log_lt (by decide) hpos, div_lt_iff₀ hd']
    have hnlt := Int.lt_zpow_succ_log_self (b := 2) (by decide) (n : ℚ)
    have hdle := Int.zpow_log_le_self (b := 2) (by decide) hd'
    rw [hnlog] at hnlt
    rw [hdlog] at hdle
    refine hnlt.trans_le ?_
    calc ((2 : ℕ) : ℚ) ^ ((n.log2 : ℤ) + 1)
        = (2 : ℕ) ^ ((n.log2 : ℤ) - d.log2 + 1) * (2 : ℕ) ^ (d.log2 : ℤ) := by
          rw [← zpow_add₀ (by decide)]
          congr 1
          omega
      _ ≤ (2 : ℕ) ^ ((n.log2 : ℤ) - d.log2 + 1) * d := by gcongr
  have hfits : (scaled n d (n.log2 - d.log2 - 53)).1 / (scaled n d (n.log2 - d.log2 - 53)).2 <
      mantissaBound ↔ Int.log 2 ((n : ℚ) / d) < (n.log2 : ℤ) - d.log2 := by
    rw [Nat.div_lt_iff_lt_mul (scaled_snd_pos n hd _), scaled_fst_lt_iff hd, mantissaBound_eq,
      ← zpow_add₀ two_ne_zero, ← Int.lt_zpow_iff_log_lt (by decide) hpos, Nat.cast_ofNat,
      show (53 : ℤ) + (n.log2 - d.log2 - 53) = n.log2 - d.log2 by omega]
  rw [exponentOf]
  simp only [hfits]
  split <;> congr 1 <;> omega

/-- At its exponent a fraction fits into the mantissa. -/
theorem div_lt_exponentOf (hn : 0 < n) (hd : 0 < d) :
    (n : ℚ) / d < mantissaBound * 2 ^ exponentOf n d := by
  rw [mantissaBound_eq, ← zpow_add₀ two_ne_zero, exponentOf_eq hn hd]
  refine (Int.lt_zpow_succ_log_self (b := 2) (by decide) _).trans_le ?_
  exact zpow_le_zpow_right₀ one_le_two (by omega)

/-- At its exponent it fills the mantissa, unless the exponent is the least one. -/
theorem exponentOf_le_div (hn : 0 < n) (hd : 0 < d) (h : exponentOf n d ≠ minExponent) :
    ((mantissaBound / 2 : Nat) : ℚ) * 2 ^ exponentOf n d ≤ n / d := by
  have hpos : (0 : ℚ) < n / d := by positivity
  rw [half_mantissaBound_eq, ← zpow_add₀ two_ne_zero]
  rw [exponentOf_eq hn hd] at h ⊢
  refine le_trans ?_ (Int.zpow_log_le_self (b := 2) (by decide) hpos)
  exact zpow_le_zpow_right₀ one_le_two (by omega)

end Scaled

/-- A magnitude with a full mantissa, or with the least exponent, is proper. -/
theorem proper_bounded (negative : Bool) {m : Nat} {e : ℤ} (hm : m < mantissaBound)
    (he : minExponent ≤ e) (hfull : mantissaBound / 2 ≤ m ∨ e = minExponent) :
    (bounded negative m e).Proper := by
  rw [bounded]
  split
  next => trivial
  next hle => exact ⟨hm, he, not_lt.mp hle, hfull⟩

/-- Whatever is rounded to a double, mantissa and exponent are those of a double. -/
theorem proper_nearest (negative : Bool) (n : Nat) {d : Nat} (hd : 0 < d) :
    (nearest negative n d).Proper := by
  rw [nearest]
  split
  next => exact proper_zero negative
  next hn =>
    have hn := Nat.pos_of_ne_zero hn
    have hmin : minExponent ≤ exponentOf n d := exponentOf_eq hn hd ▸ le_max_left _ _
    have hlt := div_lt_exponentOf hn hd
    have hfull := exponentOf_le_div hn hd
    generalize exponentOf n d = e at *
    have hpos := scaled_snd_pos n hd e
    have hle : roundHalfEven (scaled n d e).1 (scaled n d e).2 ≤ mantissaBound :=
      roundHalfEven_le hpos ((scaled_fst_lt_iff hd).mpr hlt).le
    have hge : mantissaBound / 2 ≤ roundHalfEven (scaled n d e).1 (scaled n d e).2 ∨
        e = minExponent := by
      by_cases h : e = minExponent
      · exact .inr h
      · exact .inl (le_roundHalfEven hpos ((le_scaled_fst_iff hd).mpr (hfull h)))
    dsimp only
    split
    -- a carry leaves a one with zeros behind it, so the exponent goes up
    next => exact proper_bounded _ (by decide) (by omega) (.inl le_rfl)
    next hne => exact proper_bounded _ (lt_of_le_of_ne hle hne) hmin hge

/-! ### Integers as doubles -/

/-- `n` to 53 binary digits, a tie going to the even neighbour: the number that the double
nearest to `n` stands for. -/
def roundedNat (n : Nat) : Nat :=
  roundHalfEven n (2 ^ (n.log2 - 52)) * 2 ^ (n.log2 - 52)

/-- The integer that the double nearest to `i` stands for. -/
def roundedInt (i : ℤ) : ℤ :=
  if i < 0 then -roundedNat i.natAbs else roundedNat i.natAbs

/-- The exponent of a whole number is that of its highest bit, less those of the mantissa. -/
theorem exponentOf_one {n : Nat} (hn : 0 < n) : exponentOf n 1 = n.log2 - 52 := by
  rw [exponentOf_eq hn Nat.one_pos, Nat.cast_one, div_one, Int.log_natCast,
    ← Nat.log2_eq_log_two, minExponent]
  omega

/-- A magnitude up to the largest exponent has its value. -/
theorem value?_bounded {negative : Bool} {m : Nat} {e : ℤ} (he : e ≤ maxExponent) :
    (bounded negative m e).value? =
      some ((if negative then -1 else 1) * ((m : ℚ) * 2 ^ e)) := by
  rw [bounded, if_neg (not_lt.mpr he)]
  rfl

/-- Mantissa and exponent of the double nearest to a natural number, before a carry. -/
theorem mantissa_mul_two_zpow {n : Nat} (hn : 0 < n) :
    ((roundHalfEven (scaled n 1 (exponentOf n 1)).1
      (scaled n 1 (exponentOf n 1)).2 : Nat) : ℚ) * 2 ^ exponentOf n 1 = roundedNat n := by
  have he := exponentOf_one hn
  rw [scaled, roundedNat, Nat.pow_eq, Nat.pow_eq, one_mul]
  rcases Nat.le_total n.log2 52 with h | h
  · -- the mantissa has room for all digits of the number
    obtain ⟨k, hk⟩ := Int.eq_ofNat_of_zero_le (show 0 ≤ -exponentOf n 1 by omega)
    have hnone := roundHalfEven_mul n Nat.one_pos
    have hall := roundHalfEven_mul (n * 2 ^ k) Nat.one_pos
    rw [mul_one] at hnone hall
    rw [hk, show exponentOf n 1 = -(k : ℤ) by omega, Nat.sub_eq_zero_of_le h, Int.toNat_natCast,
      Int.toNat_neg_natCast, pow_zero, hall, hnone, mul_one]
    push_cast
    rw [zpow_neg, zpow_natCast]
    field_simp
  · obtain ⟨k, hk⟩ := Int.eq_ofNat_of_zero_le (show 0 ≤ exponentOf n 1 by omega)
    rw [hk, show n.log2 - 52 =
      k by omega, Int.toNat_natCast, Int.toNat_neg_natCast, pow_zero, mul_one, zpow_natCast]
    push_cast
    rfl

/-- The double nearest to a whole number has that number, rounded. -/
theorem value?_nearest (negative : Bool) {n : Nat} (hn : n.log2 < 1023) :
    (nearest negative n 1).value? =
      some ((if negative then -1 else 1) * (roundedNat n : ℚ)) := by
  rcases Nat.eq_zero_or_pos n with rfl | hpos
  · simp [nearest, value?, roundedNat, roundHalfEven]
  have he := exponentOf_one hpos
  have hm := mantissa_mul_two_zpow hpos
  rw [nearest, if_neg hpos.ne']
  dsimp only
  split
  next hcarry =>
    rw [value?_bounded (by rw [he, maxExponent]; omega), ← hm, hcarry, half_mantissaBound_eq,
      mantissaBound_eq, ← zpow_add₀ two_ne_zero, ← zpow_add₀ two_ne_zero]
    congr 3
    omega
  next => rw [value?_bounded (by rw [he, maxExponent]; omega), hm]

/-- The number that the double nearest to an integer stands for. -/
theorem value?_ofInt {i : ℤ} (hi : i.natAbs.log2 < 1023) :
    (ofInt i).value? = some (roundedInt i : ℚ) := by
  rw [ofInt, value?_nearest _ hi, roundedInt]
  split <;> simp_all

/-- Zero is not rounded. -/
theorem roundedNat_zero : roundedNat 0 = 0 := rfl

/-- Rounding keeps the highest bit. -/
theorem two_pow_log2_le_roundedNat {n : Nat} (hn : 0 < n) : 2 ^ n.log2 ≤ roundedNat n := by
  have hle := Nat.log2_self_le hn.ne'
  rcases Nat.le_total n.log2 52 with h | h
  · have hone := roundHalfEven_mul n Nat.one_pos
    rw [mul_one] at hone
    rwa [roundedNat, Nat.sub_eq_zero_of_le h, pow_zero, hone, mul_one]
  · have hsplit : 2 ^ n.log2 = 2 ^ 52 * 2 ^ (n.log2 - 52) := by
      rw [← pow_add, Nat.add_sub_cancel' h]
    rw [hsplit] at hle ⊢
    exact Nat.mul_le_mul_right _ (le_roundHalfEven (by positivity) hle)

/-- Rounding does not pass a power of two. -/
theorem roundedNat_le_two_pow {n k : Nat} (hn : n ≤ 2 ^ k) : roundedNat n ≤ 2 ^ k := by
  rcases Nat.le_total (n.log2 - 52) k with h | h
  · have hsplit : 2 ^ k = 2 ^ (k - (n.log2 - 52)) * 2 ^ (n.log2 - 52) := by
      rw [← pow_add, Nat.sub_add_cancel h]
    rw [hsplit] at hn ⊢
    exact Nat.mul_le_mul_right _ (roundHalfEven_le (by positivity) hn)
  · rcases Nat.eq_zero_or_pos n with rfl | hpos
    · exact Nat.zero_le _
    · have hle := (Nat.log2_self_le hpos.ne').trans hn
      have := (Nat.pow_le_pow_iff_right (by decide)).mp hle
      obtain rfl : k = 0 := by omega
      obtain rfl : n = 1 := by omega
      decide

/-- A natural number that is a double: one of at most 53 binary digits, with any zeros behind
them. -/
def IsExact (n : Nat) : Prop :=
  ∃ m e, m < mantissaBound ∧ n = m * 2 ^ e

/-- A number that fits into the mantissa is exact. -/
theorem isExact_of_lt {n : Nat} (h : n < mantissaBound) : IsExact n :=
  ⟨n, 0, h, (mul_one n).symm⟩

/-- The natural numbers that are doubles are those that rounding leaves alone. -/
theorem roundedNat_eq_self_iff {n : Nat} : roundedNat n = n ↔ IsExact n := by
  constructor
  · intro h
    have hle : roundHalfEven n (2 ^ (n.log2 - 52)) ≤ mantissaBound := by
      refine roundHalfEven_le (by positivity) ?_
      rw [show mantissaBound = 2 ^ 53 by rfl, ← pow_add]
      exact Nat.lt_log2_self.le.trans (Nat.pow_le_pow_right (by decide) (by omega))
    rcases hle.lt_or_eq with hlt | heq
    · exact ⟨_, _, hlt, h.symm⟩
    · refine ⟨1, 53 + (n.log2 - 52), by decide, ?_⟩
      rw [roundedNat, heq] at h
      rw [pow_add, one_mul]
      exact h.symm
  · rintro ⟨m, e, hm, rfl⟩
    rcases Nat.eq_zero_or_pos m with rfl | hpos
    · rw [Nat.zero_mul, roundedNat_zero]
    have hlog : (m * 2 ^ e).log2 - 52 ≤ e := by
      have hlt : m * 2 ^ e < 2 ^ (53 + e) := by
        rw [pow_add]
        exact Nat.mul_lt_mul_of_pos_right hm (by positivity)
      have := (Nat.log2_lt (by positivity)).mpr hlt
      omega
    have hsplit :
        m * 2 ^ e = m * 2 ^ (e - ((m * 2 ^ e).log2 - 52)) * 2 ^ ((m * 2 ^ e).log2 - 52) := by
      rw [mul_assoc, ← pow_add, Nat.sub_add_cancel hlog]
    rw [roundedNat]
    generalize (m * 2 ^ e).log2 - 52 = k at *
    rw [hsplit, roundHalfEven_mul _ (by positivity)]

/-- A number below the bound is the only one that is rounded to it. -/
theorem roundedNat_inj {a b : Nat} (hb : b < mantissaBound) :
    roundedNat a = roundedNat b ↔ a = b := by
  refine ⟨fun h => ?_, congrArg roundedNat⟩
  rw [roundedNat_eq_self_iff.mpr (isExact_of_lt hb)] at h
  rcases lt_or_ge a mantissaBound with ha | ha
  · rwa [roundedNat_eq_self_iff.mpr (isExact_of_lt ha)] at h
  · have hpos : 0 < a := (show 0 < mantissaBound by decide).trans_le ha
    have hlog : 53 ≤ a.log2 := (Nat.le_log2 hpos.ne').mpr ha
    have hlow := two_pow_log2_le_roundedNat hpos
    have hpow : 2 ^ 53 ≤ 2 ^ a.log2 := Nat.pow_le_pow_right (by decide) hlog
    have : mantissaBound = 2 ^ 53 := rfl
    omega

/-- An integer of either sign is rounded as its magnitude is; zero has both signs. -/
theorem roundedInt_signed {i : ℤ} {negative : Bool}
    (h : i = if negative then -(i.natAbs : ℤ) else i.natAbs) :
    roundedInt i = (if negative then -1 else 1) * roundedNat i.natAbs := by
  rw [roundedInt]
  cases negative with
  | false =>
    rw [if_neg (by decide)] at h
    rw [if_neg (by omega), if_neg (by decide), one_mul]
  | true =>
    rw [if_pos rfl] at h
    split
    · rw [if_pos rfl, neg_one_mul]
    · obtain rfl : i = 0 := by omega
      rfl

/-- An integer is rounded in its magnitude. -/
theorem natAbs_roundedInt (i : ℤ) : (roundedInt i).natAbs = roundedNat i.natAbs := by
  rw [roundedInt]
  split <;> omega

/-- It stays as it is when its magnitude is exact. -/
theorem roundedInt_eq_self_iff {i : ℤ} : roundedInt i = i ↔ IsExact i.natAbs := by
  rw [← roundedNat_eq_self_iff, roundedInt]
  split <;> omega

/-- An integer below the bound is the only one that is rounded to it. -/
theorem roundedInt_inj {i k : ℤ} (hk : k.natAbs < mantissaBound) :
    roundedInt i = roundedInt k ↔ i = k := by
  refine ⟨fun h => ?_, congrArg roundedInt⟩
  have habs : i.natAbs = k.natAbs := by
    rw [← roundedNat_inj hk, ← natAbs_roundedInt, h, natAbs_roundedInt]
  rw [roundedInt, roundedInt, habs] at h
  rcases Nat.eq_zero_or_pos k.natAbs with hzero | hpos
  · omega
  · have := (Nat.two_pow_pos _).trans_le (two_pow_log2_le_roundedNat hpos)
    split at h <;> split at h <;> omega

/-! ### Comparing and truncating -/

/-- Two numbers with signs are equal when their magnitudes are, and their signs unless they are
zero. -/
theorem signed_eq_iff {s t : Bool} {u v : Nat} : u = v ∧ (s = t ∨ u = 0) ↔
    (if s then -1 else 1) * (u : ℚ) = (if t then -1 else 1) * (v : ℚ) := by
  have hcast : (if s then -1 else 1) * (u : ℚ) = (if t then -1 else 1) * (v : ℚ) ↔
      (if s then -1 else 1) * (u : ℤ) = (if t then -1 else 1) * (v : ℤ) := by
    rw [← @Int.cast_inj ℚ]
    push_cast
    rfl
  rw [hcast]
  cases s <;> cases t <;> simp <;> omega

/-- Doubles are equal if they stand for the same number. -/
theorem equals_iff {x y : Double} {p q : ℚ} (hx : x.value? = some p) (hy : y.value? = some q) :
    x.equals y = true ↔ p = q := by
  match x, y, hx, hy with
  | finite s m e, finite t n f, hx, hy =>
    obtain rfl := Option.some.inj hx
    obtain rfl := Option.some.inj hy
    set low := min e f with hlow
    obtain ⟨a, ha⟩ := Int.eq_ofNat_of_zero_le (show 0 ≤ e - low by omega)
    obtain ⟨b, hb⟩ := Int.eq_ofNat_of_zero_le (show 0 ≤ f - low by omega)
    have hlowpos : (0 : ℚ) < 2 ^ low := by positivity
    have hx' : (m : ℚ) * 2 ^ e = (m * 2 ^ a : Nat) * 2 ^ low := by
      rw [show e = a + low by omega, zpow_add₀ two_ne_zero, zpow_natCast]
      push_cast
      ring
    have hy' : (n : ℚ) * 2 ^ f = (n * 2 ^ b : Nat) * 2 ^ low := by
      rw [show f = b + low by omega, zpow_add₀ two_ne_zero, zpow_natCast]
      push_cast
      ring
    have hzero : m = 0 ↔ m * 2 ^ a = 0 := by simp
    rw [hx', hy', equals]
    simp only [← hlow, ha, hb, Int.toNat_natCast, Bool.and_eq_true, Bool.or_eq_true, beq_iff_eq,
      Nat.pow_eq, hzero]
    generalize m * 2 ^ a = u
    generalize n * 2 ^ b = v
    rw [← mul_assoc, ← mul_assoc, mul_left_inj' hlowpos.ne']
    exact signed_eq_iff

/-- What is equal to a number stands for it. -/
theorem value?_of_equals {x y : Double} {q : ℚ} (h : x.equals y = true)
    (hy : y.value? = some q) : x.value? = some q := by
  match x, y, h, hy with
  | finite .., finite .., h, hy => exact congrArg some ((equals_iff rfl hy).mp h)

/-- The magnitude of a double that is an integer is that of the integer. -/
theorem magnitude_of_value {s : Bool} {m : Nat} {e i : ℤ}
    (h : (finite s m e).value? = some (i : ℚ)) : (m : ℚ) * 2 ^ e = i.natAbs := by
  have hsigned : (if s then -1 else 1) * ((m : ℚ) * 2 ^ e) = i := Option.some.inj h
  have habs := congrArg abs hsigned
  rwa [abs_mul, abs_of_nonneg (show (0 : ℚ) ≤ m * 2 ^ e by positivity), ← Int.cast_abs,
    Int.abs_eq_natAbs, show |(if s then -1 else 1 : ℚ)| = 1 by
      cases s <;> simp, one_mul] at habs

/-- A whole number is only cut to the range. -/
theorem truncate_of_value {x : Double} {i : ℤ} (h : x.value? = some (i : ℚ)) (low high : ℤ) :
    x.truncate low high = max low (min high i) := by
  match x, h with
  | finite s m e, h =>
    have hsigned : (if s then -1 else 1) * ((m : ℚ) * 2 ^ e) = i := Option.some.inj h
    have habs := magnitude_of_value h
    have hwhole : wholePart m e = i.natAbs := by
      have hnat : m * 2 ^ e.toNat = 2 ^ (-e).toNat * i.natAbs := by
        rw [two_zpow_eq] at habs
        field_simp at habs
        exact_mod_cast habs
      rw [wholePart, Nat.pow_eq, Nat.pow_eq, hnat, Nat.mul_div_cancel_left _ (by positivity)]
    have hsign : (if s then -(wholePart m e : ℤ) else wholePart m e) = i := by
      have hint : (if s then -1 else 1) * (i.natAbs : ℤ) = i := by
        rw [habs, ← @Int.cast_natCast ℚ] at hsigned
        exact_mod_cast hsigned
      rw [hwhole]
      cases s <;> simp at hint ⊢ <;> omega
    rw [truncate]
    exact congrArg (fun j => max low (min high j)) hsign

/-- A whole number that a double stands for is exact: without a fraction it is the mantissa and
zeros, or no larger than the mantissa. -/
theorem isExact_of_value {x : Double} (hx : x.Proper) {i : ℤ} (h : x.value? = some (i : ℚ)) :
    IsExact i.natAbs := by
  match x, hx, h with
  | finite s m e, hx, h =>
    have habs := magnitude_of_value h
    rcases Int.le_total 0 e with hup | hdown
    · obtain ⟨k, rfl⟩ := Int.eq_ofNat_of_zero_le hup
      exact ⟨m, k, hx.1, by exact_mod_cast habs.symm⟩
    · obtain ⟨k, hk⟩ := Int.eq_ofNat_of_zero_le (Int.neg_nonneg.mpr hdown)
      obtain rfl : e = -k := by omega
      have hm : m = i.natAbs * 2 ^ k := by
        rw [zpow_neg, zpow_natCast, mul_inv_eq_iff_eq_mul₀ (by positivity)] at habs
        exact_mod_cast habs
      refine isExact_of_lt (lt_of_le_of_lt ?_ hx.1)
      rw [hm]
      exact Nat.le_mul_of_pos_right _ (by positivity)

end VenueLink.Double

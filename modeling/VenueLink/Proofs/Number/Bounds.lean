import VenueLink.Proofs.Number.Numeral

/-!
# Numbers that no double comes near

A number is too large for a double from the middle between the largest double and the next power
of two on (`overflowBound`): what is nearest to it is an infinity. A numeric text is read as
something that is not finite exactly if it is one of the words for that or a decimal of such a
size, however it is written (`IsUnbounded`). At the other end, cutting off a fraction leaves a
positive integer of all numbers up to the next one, and of all numbers above the range the
largest integer.

## Main results

* `isFinite_nearest_iff`: which ratios have a finite double.
* `isUnbounded_iff`: which texts are read as something that is not finite.
* `truncate_eq_iff`: which doubles are cut to a given integer.
-/

namespace VenueLink.Double

open Text

/-! ### Cutting to an integer -/

/-- The whole part of a magnitude is its floor. -/
theorem wholePart_eq_floor (m : Nat) (e : ℤ) : wholePart m e = ⌊(m : ℚ) * 2 ^ e⌋₊ := by
  have hratio : (m : ℚ) * 2 ^ e = ((m * 2 ^ e.toNat : ℕ) : ℚ) / (2 ^ (-e).toNat : ℕ) := by
    rw [two_zpow_eq, ← mul_div_assoc]
    push_cast
    rfl
  rw [hratio, Rat.natFloor_natCast_div_natCast, wholePart, Nat.pow_eq, Nat.pow_eq]

/-- The numbers that are cut to a positive integer within the range are those up to the next
one. -/
theorem truncate_eq_iff {x : Double} {low high : ℤ} {k : ℕ} (hk : 0 < k) (hlow : low ≤ 0)
    (hhigh : k < high) :
    x.truncate low high = k ↔ ∃ q, x.value? = some q ∧ (k : ℚ) ≤ q ∧ q < k + 1 := by
  have hcut : ∀ whole : ℤ, max low (min high whole) = k ↔ whole = k := fun whole => by omega
  cases x with
  | nan =>
    rw [truncate]
    refine ⟨fun h => by omega, ?_⟩
    rintro ⟨_, ⟨⟩, -⟩
  | infinite negative =>
    rw [truncate]
    refine ⟨fun h => ?_, ?_⟩
    · split at h <;> omega
    · rintro ⟨_, ⟨⟩, -⟩
  | finite s m e =>
    have hnonneg : (0 : ℚ) ≤ m * 2 ^ e := by positivity
    simp only [truncate, hcut, value?, Option.some_inj, exists_eq_left']
    cases s with
    | false =>
      rw [if_neg (by decide), if_neg (by decide), one_mul, wholePart_eq_floor, Nat.cast_inj,
        Nat.floor_eq_iff hnonneg]
    | true =>
      -- a negative number is not cut to a positive one
      rw [if_pos rfl, if_pos rfl]
      have hk' : (0 : ℚ) < k := by exact_mod_cast hk
      exact ⟨fun h => by omega, fun h => by linarith [h.1]⟩

/-- With all 53 bits in use and eleven zeros or more behind them, a number is beyond 64 bits. -/
theorem truncate_bounded {m : ℕ} {e : ℤ} (hm : mantissaBound / 2 ≤ m) (he : 11 ≤ e) :
    (bounded false m e).truncate minInt64 maxInt64 = maxInt64 := by
  have hrange : minInt64 ≤ maxInt64 := by decide
  rw [bounded]
  split
  next => rfl
  next =>
    obtain ⟨k, rfl⟩ := Int.eq_ofNat_of_zero_le (show 0 ≤ e by omega)
    have hwhole : wholePart m k = m * 2 ^ k := by simp [wholePart]
    have hpow : 2 ^ 11 ≤ 2 ^ k := Nat.pow_le_pow_right (by decide) (by omega)
    have hlarge : mantissaBound / 2 * 2 ^ 11 ≤ m * 2 ^ k := Nat.mul_le_mul hm hpow
    have hlast : maxInt64 < ((mantissaBound / 2 * 2 ^ 11 : ℕ) : ℤ) := by decide
    rw [truncate, if_neg (by decide), hwhole]
    omega

/-- An integer above the range is cut to the largest one of 64 bits. -/
theorem truncate_ofInt {i : ℤ} (hi : maxInt64 < i) :
    (ofInt i).truncate minInt64 maxInt64 = maxInt64 := by
  have hsize : 2 ^ 63 ≤ i.natAbs := by
    rw [maxInt64] at hi
    omega
  have hpos : 0 < i.natAbs := (Nat.two_pow_pos 63).trans_le hsize
  have he : 11 ≤ exponentOf i.natAbs 1 := by
    have := (Nat.le_log2 hpos.ne').mpr hsize
    rw [exponentOf_one hpos]
    omega
  have hfull := exponentOf_le_div hpos Nat.one_pos (by rw [minExponent]; omega)
  have hm := le_roundHalfEven (scaled_snd_pos i.natAbs Nat.one_pos _)
    ((le_scaled_fst_iff Nat.one_pos).mpr hfull)
  have hneg : decide (i < 0) = false := decide_eq_false (by rw [maxInt64] at hi; omega)
  rw [ofInt, hneg, nearest, if_neg hpos.ne']
  dsimp only
  split
  next => exact truncate_bounded le_rfl (by omega)
  next => exact truncate_bounded hm he

/-! ### Overflow -/

/-- The middle between the largest double and the next power of two. -/
def overflowBound : ℚ :=
  (2 ^ 54 - 1) * 2 ^ (970 : ℤ)

/-- The bound is not zero. -/
theorem overflowBound_pos : 0 < overflowBound := by
  rw [overflowBound]
  norm_num

/-- It is at most the first power of two that is no double. -/
theorem overflowBound_le : overflowBound ≤ 2 ^ (1024 : ℤ) := by
  have hsplit : (2 : ℚ) ^ (1024 : ℤ) = 2 ^ (54 : ℤ) * 2 ^ (970 : ℤ) := by
    rw [← zpow_add₀ two_ne_zero]
    rfl
  rw [overflowBound, hsplit]
  refine mul_le_mul_of_nonneg_right ?_ (by positivity)
  norm_num

/-- It is at least the power of two before that. -/
theorem le_overflowBound : (2 : ℚ) ^ (1023 : ℤ) ≤ overflowBound := by
  have hsplit : (2 : ℚ) ^ (1023 : ℤ) = 2 ^ (53 : ℤ) * 2 ^ (970 : ℤ) := by
    rw [← zpow_add₀ two_ne_zero]
    rfl
  rw [overflowBound, hsplit]
  refine mul_le_mul_of_nonneg_right ?_ (by positivity)
  norm_num

/-- An odd number is passed from the middle to the next one on. -/
theorem roundHalfEven_le_iff {n d k : ℕ} (hd : 0 < d) (hk : k % 2 = 1) :
    roundHalfEven n d ≤ k ↔ 2 * n < (2 * k + 1) * d := by
  have hn := Nat.div_add_mod n d
  have hr := Nat.mod_lt n hd
  rcases lt_trichotomy (n / d) k with hlt | heq | hgt
  · have hle : n ≤ k * d := by
      rw [Nat.div_lt_iff_lt_mul hd] at hlt
      exact hlt.le
    refine iff_of_true (roundHalfEven_le hd hle) ?_
    rw [Nat.add_mul, Nat.mul_assoc]
    omega
  · have htwice : 2 * n < (2 * k + 1) * d ↔ 2 * (n % d) < d := by
      rw [heq] at hn
      rw [Nat.add_mul, Nat.mul_assoc, Nat.mul_comm k]
      omega
    rw [htwice, roundHalfEven, heq]
    split
    · omega
    · split <;> omega
  · have hle : (k + 1) * d ≤ n := (Nat.le_div_iff_mul_le hd).mp hgt
    have := le_roundHalfEven hd hle
    refine iff_of_false (by omega) ?_
    rw [Nat.add_mul] at hle ⊢
    rw [Nat.mul_assoc]
    omega

/-- A magnitude is finite up to the largest exponent. -/
theorem isFinite_bounded_iff {negative : Bool} {m : ℕ} {e : ℤ} :
    (bounded negative m e).isFinite = true ↔ e ≤ maxExponent := by
  rw [bounded]
  split
  next hlt => exact iff_of_false Bool.false_ne_true (not_le.mpr hlt)
  next hle => exact iff_of_true rfl (not_lt.mp hle)

/-- At the largest exponent, rounding carries from the bound on. -/
theorem roundHalfEven_lt_iff_of_exponent {n d : ℕ} (hd : 0 < d) :
    roundHalfEven (scaled n d maxExponent).1 (scaled n d maxExponent).2 < mantissaBound ↔
      (n : ℚ) / d < overflowBound := by
  have hpos := scaled_snd_pos n hd maxExponent
  have hpos' : (0 : ℚ) < (scaled n d maxExponent).2 := by exact_mod_cast hpos
  have hscaled : 2 * ((scaled n d maxExponent).1 : ℚ) =
      n / d / 2 ^ (970 : ℤ) * (scaled n d maxExponent).2 := by
    have hhalf : (2 : ℚ) ^ maxExponent = 2 ^ (970 : ℤ) * 2 := by
      rw [← zpow_add_one₀ two_ne_zero]
      rfl
    rw [scaled_fst_eq n hd, hhalf]
    field_simp
  have hodd : (mantissaBound - 1) % 2 = 1 := by decide
  have hbound : ((2 * (mantissaBound - 1) + 1 : ℕ) : ℚ) = 2 ^ 54 - 1 := by
    norm_num [mantissaBound]
  calc roundHalfEven (scaled n d maxExponent).1 (scaled n d maxExponent).2 < mantissaBound
      ↔ roundHalfEven (scaled n d maxExponent).1 (scaled n d maxExponent).2 ≤ mantissaBound -
        1 :=
        Nat.lt_iff_le_pred (by decide)
    _ ↔ 2 * (scaled n d maxExponent).1 < (2 * (mantissaBound - 1) + 1) *
      (scaled n d maxExponent).2 :=
        roundHalfEven_le_iff hpos hodd
    _ ↔ (n : ℚ) / d / 2 ^ (970 : ℤ) * (scaled n d maxExponent).2 <
          (2 ^ 54 - 1) * (scaled n d maxExponent).2 := by
        rw [← @Nat.cast_lt ℚ, Nat.cast_mul, Nat.cast_mul, Nat.cast_ofNat, hscaled, hbound]
    _ ↔ (n : ℚ) / d < overflowBound := by
        rw [mul_lt_mul_iff_left₀ hpos', div_lt_iff₀ (by positivity), overflowBound]

/-- A ratio has a finite double exactly if it is below the bound. -/
theorem isFinite_nearest_iff (negative : Bool) (n : ℕ) {d : ℕ} (hd : 0 < d) :
    (nearest negative n d).isFinite = true ↔ (n : ℚ) / d < overflowBound := by
  rcases Nat.eq_zero_or_pos n with rfl | hn
  · rw [nearest, if_pos rfl, Nat.cast_zero, zero_div]
    exact iff_of_true rfl overflowBound_pos
  have hlt := div_lt_exponentOf hn hd
  have hge := exponentOf_le_div hn hd
  have hmax : maxExponent = 971 := rfl
  have hmin : minExponent = -1074 := rfl
  rw [nearest, if_neg hn.ne']
  dsimp only
  rcases lt_trichotomy (exponentOf n d) maxExponent with hbelow | hlast | habove
  · -- a carry still leaves the exponent in range
    have hfinite : (n : ℚ) / d < overflowBound := by
      refine (hlt.trans_le ?_).trans_le le_overflowBound
      rw [mantissaBound_eq, ← zpow_add₀ two_ne_zero]
      exact zpow_le_zpow_right₀ one_le_two (by omega)
    refine iff_of_true ?_ hfinite
    split <;> exact isFinite_bounded_iff.mpr (by omega)
  · -- only a carry leaves the range
    have hpos := scaled_snd_pos n hd (exponentOf n d)
    have hle := roundHalfEven_le hpos ((scaled_fst_lt_iff hd).mpr hlt).le
    rw [hlast] at hle ⊢
    rw [← roundHalfEven_lt_iff_of_exponent hd]
    split
    next hcarry => exact iff_of_false (by rw [isFinite_bounded_iff]; omega) hcarry.not_lt
    next hne => exact iff_of_true (isFinite_bounded_iff.mpr le_rfl) (lt_of_le_of_ne hle hne)
  · have hinfinite : overflowBound ≤ (n : ℚ) / d := by
      refine overflowBound_le.trans (le_trans ?_ (hge (by omega)))
      rw [half_mantissaBound_eq, ← zpow_add₀ two_ne_zero]
      exact zpow_le_zpow_right₀ one_le_two (by omega)
    refine iff_of_false ?_ (not_lt.mpr hinfinite)
    split <;> rw [isFinite_bounded_iff] <;> omega

/-! ### Numbers in decimal -/

/-- A number with 311 digits is beyond all doubles. -/
theorem two_pow_le_ten_pow : (2 : ℚ) ^ (1024 : ℤ) ≤ 10 ^ (310 : ℤ) :=
  calc (2 : ℚ) ^ (1024 : ℤ) = (2 ^ 256) ^ 4 := by rw [← pow_mul]; rfl
    _ ≤ (2 * 10 ^ 77) ^ 4 := pow_le_pow_left₀ (by norm_num) (by norm_num) 4
    _ = 16 * 10 ^ 308 := by rw [mul_pow, ← pow_mul]; norm_num
    _ ≤ 10 ^ 2 * 10 ^ 308 := mul_le_mul_of_nonneg_right (by norm_num) (by positivity)
    _ = 10 ^ (310 : ℤ) := by rw [← pow_add]; rfl

/-- A number of so many digits is between two powers of ten. -/
theorem ten_pow_le_of_digits {n : ℕ} (hn : n ≠ 0) :
    (10 : ℚ) ^ ((Nat.toDigits 10 n).length - 1 : ℤ) ≤ n ∧
      (n : ℚ) < 10 ^ ((Nat.toDigits 10 n).length : ℤ) := by
  have hpos : 0 < (Nat.toDigits 10 n).length := Nat.length_toDigits_pos
  have hhigh : n < 10 ^ (Nat.toDigits 10 n).length :=
    (Nat.length_toDigits_le_iff (by decide) hpos).mp le_rfl
  have hlow : 10 ^ ((Nat.toDigits 10 n).length - 1) ≤ n := by
    rcases Nat.eq_zero_or_pos ((Nat.toDigits 10 n).length - 1) with hone | hmore
    · rw [hone]
      exact Nat.one_le_iff_ne_zero.mpr hn
    · have hless : ¬(Nat.toDigits 10 n).length ≤ (Nat.toDigits 10 n).length - 1 := by omega
      rw [Nat.length_toDigits_le_iff (by decide) hmore] at hless
      exact not_lt.mp hless
  constructor
  · rw [show ((Nat.toDigits 10 n).length - 1 : ℤ) =
      ((Nat.toDigits 10 n).length - 1 : ℕ) by omega, zpow_natCast]
    exact_mod_cast hlow
  · rw [zpow_natCast]
    exact_mod_cast hhigh

/-- Powers of ten that are cut off before they are computed are too large or small enough. -/
theorem isFinite_ofDecimal_iff (negative : Bool) (digits : ℕ) (exponent : ℤ) :
    (ofDecimal negative digits exponent).isFinite = true ↔
      (digits : ℚ) * 10 ^ exponent < overflowBound := by
  rw [ofDecimal]
  split
  next hzero =>
    rw [hzero, Nat.cast_zero, zero_mul]
    exact iff_of_true rfl overflowBound_pos
  next hne =>
    obtain ⟨hlow, hhigh⟩ := ten_pow_le_of_digits hne
    split
    next htop =>
      have hlarge : overflowBound ≤ (digits : ℚ) * 10 ^ exponent :=
        calc overflowBound ≤ 2 ^ (1024 : ℤ) := overflowBound_le
          _ ≤ 10 ^ (310 : ℤ) := two_pow_le_ten_pow
          _ ≤ 10 ^ ((Nat.toDigits 10 digits).length - 1 + exponent : ℤ) :=
            zpow_le_zpow_right₀ (by norm_num) (by omega)
          _ ≤ digits * 10 ^ exponent := by
            rw [zpow_add₀ (by norm_num)]
            exact mul_le_mul_of_nonneg_right hlow (by positivity)
      exact iff_of_false Bool.false_ne_true (not_lt.mpr hlarge)
    next =>
      split
      next htop =>
        have hsmall : (digits : ℚ) * 10 ^ exponent < overflowBound :=
          calc (digits : ℚ) * 10 ^ exponent
              < 10 ^ ((Nat.toDigits 10 digits).length : ℤ) * 10 ^ exponent :=
                mul_lt_mul_of_pos_right hhigh (by positivity)
            _ = 10 ^ ((Nat.toDigits 10 digits).length + exponent : ℤ) :=
              (zpow_add₀ (by norm_num) _ _).symm
            _ ≤ 2 ^ (1023 : ℤ) := by
              refine le_trans (zpow_le_one_of_nonpos₀ (by norm_num) (by omega)) ?_
              exact one_le_zpow₀ one_le_two (by decide)
            _ ≤ overflowBound := le_overflowBound
        exact iff_of_true rfl hsmall
      next =>
        have hratio : ((digits * Nat.pow 10 exponent.toNat : ℕ) : ℚ) /
            (Nat.pow 10 (-exponent).toNat : ℕ) =
            digits * 10 ^ exponent := by
          rcases Int.le_total 0 exponent with h | h
          · obtain ⟨k, rfl⟩ := Int.eq_ofNat_of_zero_le h
            simp
          · obtain ⟨k, hk⟩ := Int.eq_ofNat_of_zero_le (Int.neg_nonneg.mpr h)
            obtain rfl : exponent = -k := by omega
            simp [div_eq_mul_inv]
        have hpow : 0 < Nat.pow 10 (-exponent).toNat := Nat.pow_pos (by decide)
        rw [isFinite_nearest_iff _ _ hpow, hratio]

/-- The text writes `digits · 10 ^ exponent`: digits, possibly with a point before, among or
behind them, and possibly an exponent at the end. -/
inductive Writes : List Char → ℕ → ℤ → Prop
  | whole {ds mark : List Char} {e : ℤ} (hds : ∀ c ∈ ds, c.isDigit = true) (hne : ds ≠ [])
    (hmark : readExponent? mark = some e) : Writes (ds ++ mark) (digitsValue ds) e
  | pointed {ds fraction mark : List Char} {e : ℤ} (hds : ∀ c ∈ ds, c.isDigit = true)
    (hfraction : ∀ c ∈ fraction, c.isDigit = true) (hne : ds ++ fraction ≠ [])
    (hmark : readExponent? mark = some e) :
    Writes (ds ++ '.' :: (fraction ++ mark)) (digitsValue (ds ++ fraction))
      (e - fraction.length)

/-- No exponent begins with a digit or a point. -/
theorem head_of_readExponent? {mark : List Char} {e : ℤ} (h : readExponent? mark = some e) :
    ∀ c, mark.head? = some c → c.isDigit = false ∧ c ≠ '.' := by
  intro c hc
  obtain ⟨rest, rfl⟩ := List.head?_eq_some_iff.mp hc
  rw [readExponent?.eq_def] at h
  split at h
  next heq => cases heq
  next heq =>
    obtain ⟨rfl, -⟩ := List.cons.inj heq
    decide
  next heq =>
    obtain ⟨rfl, -⟩ := List.cons.inj heq
    decide
  next => cases h

/-- The digits in front are found where something else follows. -/
theorem span_digits {ds rest : List Char} (hds : ∀ c ∈ ds, c.isDigit = true)
    (hrest : ∀ c, rest.head? = some c → c.isDigit = false) :
    (ds ++ rest).takeWhile Char.isDigit = ds ∧ (ds ++ rest).dropWhile Char.isDigit = rest := by
  rw [List.takeWhile_append_of_pos hds, List.dropWhile_append_of_pos hds]
  cases rest with
  | nil => simp
  | cons c cs => simp [hrest c rfl]

/-- What is read is the double nearest to a decimal that is written there. -/
theorem exists_writes_of_readMagnitude? {negative : Bool} {cs : List Char} {d : Double}
    (h : readMagnitude? negative cs = some d) :
    ∃ digits exponent, Writes cs digits exponent ∧ d = ofDecimal negative digits exponent := by
  have hcs : cs = cs.takeWhile Char.isDigit ++ cs.dropWhile Char.isDigit :=
    List.takeWhile_append_dropWhile.symm
  have hds : ∀ c ∈ cs.takeWhile Char.isDigit, c.isDigit = true :=
    fun c => List.mem_takeWhile_imp
  rw [readMagnitude?] at h
  dsimp only at h
  generalize cs.takeWhile Char.isDigit = ds at h hcs hds
  generalize cs.dropWhile Char.isDigit = rest at h hcs
  rw [hcs]
  split at h
  next r =>
    obtain ⟨hne, h⟩ := Option.ite_none_left_eq_some.mp h
    obtain ⟨e, hmark, rfl⟩ := Option.map_eq_some_iff.mp h
    have hfraction : ∀ c ∈ r.takeWhile Char.isDigit, c.isDigit = true :=
      fun c => List.mem_takeWhile_imp
    have hnone : ds ++ r.takeWhile Char.isDigit ≠ [] := by
      simpa only [Bool.and_eq_true, List.isEmpty_iff, Ne, List.append_eq_nil_iff] using hne
    have hwrites := Writes.pointed hds hfraction hnone hmark
    rw [List.takeWhile_append_dropWhile] at hwrites
    exact ⟨_, _, hwrites, rfl⟩
  next =>
    obtain ⟨hne, h⟩ := Option.ite_none_left_eq_some.mp h
    obtain ⟨e, hmark, rfl⟩ := Option.map_eq_some_iff.mp h
    have hnone : ds ≠ [] := by simpa using hne
    refine ⟨_, _, .whole hds hnone hmark, ?_⟩
    simp

/-- A text that writes a number is read as the double nearest to it. -/
theorem readMagnitude?_of_writes {negative : Bool} {cs : List Char} {digits : ℕ} {exponent : ℤ}
    (h : Writes cs digits exponent) :
    readMagnitude? negative cs = some (ofDecimal negative digits exponent) := by
  cases h with
  | @whole ds mark e hds hne hmark =>
    have hhead := head_of_readExponent? hmark
    obtain ⟨htake, hdrop⟩ := span_digits hds fun c hc => (hhead c hc).1
    rw [readMagnitude?, htake, hdrop]
    dsimp only
    split
    next r => exact absurd rfl (hhead '.' rfl).2
    next => simp [hne, hmark]
  | @pointed ds fraction mark e hds hfraction hne hmark =>
    have hhead := head_of_readExponent? hmark
    have hpoint : ∀ c, ('.' :: (fraction ++ mark)).head? = some c → c.isDigit = false := by
      rintro c hc
      obtain rfl := Option.some.inj hc
      decide
    obtain ⟨htake, hdrop⟩ := span_digits hds hpoint
    obtain ⟨htake', hdrop'⟩ := span_digits hfraction fun c hc => (hhead c hc).1
    have hnone : ¬(ds.isEmpty && fraction.isEmpty) = true := by
      simpa only [Bool.and_eq_true, List.isEmpty_iff, ← List.append_eq_nil_iff] using hne
    rw [readMagnitude?, htake, hdrop]
    simp only [htake', hdrop']
    rw [if_neg hnone, hmark]
    rfl

/-- One of the words for a number that is not finite, or a decimal that is too large for a
double. -/
def IsUnbounded (cs : List Char) : Prop :=
  lowerAscii (String.ofList cs) ∈ ["inf", "infinity", "nan"] ∨
    ∃ digits exponent, Writes cs digits exponent ∧ overflowBound ≤ digits * 10 ^ exponent

/-- A text is unbounded when it is read as a double that is not finite. -/
theorem isUnbounded_iff_readUnsigned? (negative : Bool) (cs : List Char) :
    IsUnbounded cs ↔ ∃ d, readUnsigned? negative cs = some d ∧ d.isFinite = false := by
  rw [readUnsigned?]
  split
  next hword =>
    have hmem : lowerAscii (String.ofList cs) ∈ ["inf", "infinity", "nan"] := by
      rw [Bool.or_eq_true, beq_iff_eq, beq_iff_eq] at hword
      rcases hword with hword | hword <;> simp [hword]
    exact iff_of_true (.inl hmem) ⟨infinite negative, rfl, rfl⟩
  next hinfinite =>
    split
    next hword =>
      have hmem : lowerAscii (String.ofList cs) ∈ ["inf", "infinity", "nan"] := by
        simp [beq_iff_eq.mp hword]
      exact iff_of_true (.inl hmem) ⟨nan, rfl, rfl⟩
    next hnan =>
      have hnone : lowerAscii (String.ofList cs) ∉ ["inf", "infinity", "nan"] := by
        simpa [and_assoc] using And.intro hinfinite hnan
      constructor
      · rintro (hword | ⟨digits, exponent, hwrites, hlarge⟩)
        · exact absurd hword hnone
        · refine ⟨_, readMagnitude?_of_writes hwrites, ?_⟩
          rw [Bool.eq_false_iff, Ne, isFinite_ofDecimal_iff]
          exact not_lt.mpr hlarge
      · rintro ⟨d, hread, hd⟩
        obtain ⟨digits, exponent, hwrites, rfl⟩ := exists_writes_of_readMagnitude? hread
        rw [Bool.eq_false_iff, Ne, isFinite_ofDecimal_iff] at hd
        exact .inr ⟨digits, exponent, hwrites, not_lt.mp hd⟩

/-- A text without a sign in front. -/
def unsigned : List Char → List Char
  | '-' :: cs => cs
  | '+' :: cs => cs
  | cs => cs

/-- A sign is taken off first. -/
theorem ofText?_eq (s : String) :
    ∃ negative, ofText? s = readUnsigned? negative (unsigned s.toList) := by
  rw [ofText?]
  generalize s.toList = cs
  split
  next => exact ⟨true, rfl⟩
  next => exact ⟨false, rfl⟩
  next hminus hplus =>
    have hself : unsigned cs = cs := by
      rw [unsigned]
      · exact hminus
      · exact hplus
    exact ⟨false, by rw [hself]⟩

/-- The texts that are read as something that is not finite are those that are unbounded behind
their sign. -/
theorem isUnbounded_iff {s : String} :
    IsUnbounded (unsigned s.toList) ↔ ∃ d, ofText? s = some d ∧ d.isFinite = false := by
  obtain ⟨negative, heq⟩ := ofText?_eq s
  rw [heq]
  exact isUnbounded_iff_readUnsigned? negative _

end VenueLink.Double

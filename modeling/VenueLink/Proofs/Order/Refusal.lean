import VenueLink.Order.Record
import VenueLink.Proofs.Number.Bounds

/-!
# Refused orders

The venue refuses an order with an answer to the placement that has a status other than 200.
Such an answer is recognised by a status that is truthy and does not read as the integer 200
(`Order.isRejection`). The first test takes a status of false, zero or no text for none at all,
and the second one cuts the fraction off a status between 200 and 201; in both cases the refusal
is passed over. No other refusal is, and nothing else is taken for one.

## Main results

* `refusal_is_seen_iff`: the messages that are recognised as refusals.
-/

namespace VenueLink

open Text Double

namespace Json

/-- The number that a value is, or that a text writes. -/
def number? : Json → Option ℚ
  | integer i => some i
  | double x => x.value?
  | string s => (ofText? (trim s)).bind Double.value?
  | _ => none

/-- False, zero, or no text: neither `null` nor truthy. -/
def IsHollow (j : Json) : Prop :=
  j = bool false ∨ j = integer 0 ∨ (∃ x, j = double x ∧ x.value? = some 0) ∨ j = string ""

/-- The doubles of value zero are the two zeros. -/
theorem value?_eq_zero_iff {x : Double} : x.value? = some 0 ↔ x.isZero = true := by
  match x with
  | nan => exact iff_of_false nofun Bool.false_ne_true
  | infinite s => exact iff_of_false nofun Bool.false_ne_true
  | finite s m e =>
    have hsign : (if s then -1 else 1 : ℚ) ≠ 0 := by cases s <;> decide
    have hpow : (2 : ℚ) ^ e ≠ 0 := by positivity
    simp only [value?, isZero, Option.some_inj, mul_eq_zero, hsign, hpow, Nat.cast_eq_zero,
      beq_iff_eq, or_false, false_or]

/-- A status counts when it is there and not hollow. -/
theorem isTruthy_iff {j : Json} : j.isTruthy = true ↔ j ≠ null ∧ ¬j.IsHollow := by
  cases j <;> simp [isTruthy, IsHollow, value?_eq_zero_iff]

/-- A truth value counts as zero or one. -/
theorem value?_of_bool (b : Bool) :
    ∃ q : ℚ, (if b then one else zero).value? = some q ∧ q ≤ 1 := by
  cases b with
  | false => exact ⟨0, value?_eq_zero_iff.mpr rfl, zero_le_one⟩
  | true =>
    refine ⟨1, ?_, le_rfl⟩
    rw [if_pos rfl, one, value?_nearest false (by decide), if_neg (by decide), one_mul]
    exact congrArg (some ∘ Nat.cast) (show roundedNat 1 = 1 by decide)

/-- An integer from two on is read from the numbers up to the next one, and from nothing else.
-/
theorem asInt?_eq_some_iff {j : Json} {k : ℕ} (hk : 1 < k) (hmax : k < maxInt64) :
    j.asInt? = some (k : ℤ) ↔ ∃ q, j.number? = some q ∧ (k : ℚ) ≤ q ∧ q < k + 1 := by
  have hcut := fun x : Double =>
    truncate_eq_iff (x := x) (Nat.zero_lt_of_lt hk) (show minInt64 ≤ 0 by decide) hmax
  match j with
  | integer i =>
    have hself : (k : ℚ) ≤ i ∧ (i : ℚ) < k + 1 ↔ i = k := by
      rw [← Int.cast_natCast, ← Int.cast_one, ← Int.cast_add, Int.cast_le, Int.cast_lt]
      omega
    simp only [number?, Option.some_inj, exists_eq_left', hself, asInt?]
    split
    next => rw [Option.some_inj]
    next hlarge =>
      rw [truncate_ofInt (not_le.mp hlarge), Option.some_inj]
      omega
  | double x =>
    have hread : (double x).asInt? = some (x.truncate minInt64 maxInt64) := rfl
    rw [hread, Option.some_inj, hcut, number?]
  | string s =>
    have hread : (string s).asInt? = (ofText? (trim s)).map (·.truncate minInt64 maxInt64) :=
        rfl
    rw [hread, number?]
    cases ofText? (trim s) with
    | none => simp
    | some x => rw [Option.map_some, Option.some_inj, hcut, Option.bind_some]
  | bool b =>
    have hnone : ¬∃ q, (bool b).number? = some q ∧ (k : ℚ) ≤ q ∧ q < k + 1 := by
      rintro ⟨_, ⟨⟩, _⟩
    have hread :
        (bool b).asInt? = some ((if b then one else zero).truncate minInt64 maxInt64) := rfl
    refine iff_of_false (fun h => ?_) hnone
    obtain ⟨q, hq, hle⟩ := value?_of_bool b
    rw [hread, Option.some_inj, hcut] at h
    obtain ⟨q', hq', hk', -⟩ := h
    obtain rfl := Option.some.inj (hq.symm.trans hq')
    have hk'' : (1 : ℚ) < k := by exact_mod_cast hk
    linarith
  | null | array _ | object _ =>
    exact iff_of_false nofun (by rintro ⟨_, ⟨⟩, _⟩)

end Json

namespace Order

open Json

/-- The message refuses an order: it answers a placement, and it has a status, which is not the
number 200. -/
def Refuses (raw : Json) : Prop :=
  raw.get? "name" = some (string "order-placed-temp") ∧
    ∃ status, raw.get? "status" = some status ∧ status ≠ null ∧ status.number? ≠ some 200

/-- A status that is taken for none, or whose fraction is cut off to 200. -/
def IsOverlooked (status : Json) : Prop :=
  status.IsHollow ∨ ∃ q, status.number? = some q ∧ 200 < q ∧ q < 201

/-- A refusal is seen by its name and a status that counts and is not 200. -/
theorem isRejection_eq_true_iff {raw : Json} :
    isRejection raw = true ↔ raw.get? "name" = some (string "order-placed-temp") ∧
      (raw.getD "status").isTruthy = true ∧ (raw.getD "status").asInt? ≠ some 200 := by
  rw [isRejection]
  split
  next hname => simp [hname]
  next hname => exact iff_of_false Bool.false_ne_true fun h => hname h.1

/-- A message refuses by its name and a status that is there and not the number 200. -/
theorem refuses_iff {raw : Json} :
    Refuses raw ↔ raw.get? "name" = some (string "order-placed-temp") ∧
      raw.getD "status" ≠ null ∧ (raw.getD "status").number? ≠ some 200 := by
  rw [Refuses, getD]
  cases raw.get? "status" <;> simp

/-- A status is taken for 200 when it is 200 after its fraction is cut off. -/
theorem asInt?_eq_200_iff {j : Json} :
    j.asInt? = some 200 ↔ ∃ q, j.number? = some q ∧ 200 ≤ q ∧ q < 201 := by
  have hcut := asInt?_eq_some_iff (j := j) (k := 200) (by decide) (by decide)
  norm_num at hcut
  exact hcut

/-- What the two tests make of a status. -/
theorem tests_iff {status : Json} : status.isTruthy = true ∧ status.asInt? ≠ some 200 ↔
    (status ≠ null ∧ status.number? ≠ some 200) ∧ ¬IsOverlooked status := by
  have hstatus : status.asInt? ≠ some 200 ↔
      status.number? ≠ some 200 ∧ ¬∃ q, status.number? = some q ∧ 200 < q ∧ q < 201 := by
    rw [Ne, asInt?_eq_200_iff, ← not_or, not_iff_not]
    constructor
    · rintro ⟨q, hq, hle, hlt⟩
      rcases hle.eq_or_lt with rfl | hless
      · exact .inl hq
      · exact .inr ⟨q, hq, hless, hlt⟩
    · rintro (hq | ⟨q, hq, hless, hlt⟩)
      · exact ⟨200, hq, le_rfl, by norm_num⟩
      · exact ⟨q, hq, hless.le, hlt⟩
  rw [isTruthy_iff, hstatus, IsOverlooked, not_or]
  exact and_and_and_comm

/-- **Refusals.** A message is recognised as a refusal exactly if it is one and its status is
not overlooked: it is neither false, zero or the empty text, nor a number between 200 and 201. A
status of 200, as a number or as a text, is never taken for a refusal. -/
theorem refusal_is_seen_iff (raw : Json) :
    (isRejection raw = true ↔ Refuses raw ∧ ¬IsOverlooked (raw.getD "status")) ∧
      ((raw.getD "status").number? = some 200 → isRejection raw = false) := by
  constructor
  · rw [isRejection_eq_true_iff, refuses_iff, tests_iff, and_assoc, and_assoc, and_assoc]
  · intro hstatus
    rw [Bool.eq_false_iff, Ne, isRejection_eq_true_iff]
    rintro ⟨-, -, hother⟩
    exact hother (asInt?_eq_200_iff.mpr ⟨200, hstatus, le_rfl, by norm_num⟩)

/-- A status of zero and one with a fraction are overlooked. -/
theorem zero_status_is_overlooked :
    let refusal (status : Json) :=
      object [("name", string "order-placed-temp"), ("status", status)]
    let fraction := finite false 7054466603810816 (-45)
    Refuses (refusal (integer 0)) ∧ isRejection (refusal (integer 0)) = false ∧
      Refuses (refusal (double fraction)) ∧ isRejection (refusal (double fraction)) = false ∧
      ¬∀ raw, isRejection raw = true ↔ Refuses raw := by
  intro refusal fraction
  have hzero : Refuses (refusal (integer 0)) :=
    ⟨rfl, integer 0, rfl, by rintro ⟨⟩, fun h => by norm_num [number?] at h⟩
  have hseen : isRejection (refusal (integer 0)) = false := by decide
  have hfraction : Refuses (refusal (double fraction)) := by
    refine ⟨rfl, double fraction, rfl, by rintro ⟨⟩, fun h => ?_⟩
    norm_num [number?, value?, fraction] at h
  refine ⟨hzero, hseen, hfraction, by decide +kernel, fun h => ?_⟩
  rw [(h _).mpr hzero] at hseen
  cases hseen

end Order

end VenueLink

import VenueLink.Proofs.Json.Integers
import VenueLink.Proofs.Number.Bounds

/-!
# Numbers of JSON

Whatever is read from JSON has only numbers of JSON in it, at any depth: integers of 64 bits and
doubles that are finite (`Json.Genuine`), and so have its parts. What can be read as a number
from such a value is finite as well, unless the value is a text that writes no finite number
(`Json.WritesUnbounded`).

## Main results

* `isFinite_asDouble?_iff`: which values are read as a finite number.
-/

namespace VenueLink.Json

open Text Double

mutual

/-- All numbers in the value are integers of 64 bits, signed or unsigned, or finite doubles. -/
def Genuine : Json → Prop
  | integer i => minInt64 ≤ i ∧ i < 2 ^ 64
  | double x => x.Proper ∧ x.isFinite = true
  | array items => GenuineItems items
  | object fields => GenuineFields fields
  | _ => True

/-- All items are genuine. -/
def GenuineItems : List Json → Prop
  | [] => True
  | x :: xs => Genuine x ∧ GenuineItems xs

/-- The values of all fields are genuine. -/
def GenuineFields : List (String × Json) → Prop
  | [] => True
  | (_, x) :: xs => Genuine x ∧ GenuineFields xs

end

/-- Items are genuine when each of them is. -/
theorem genuineItems_iff {items : List Json} : GenuineItems items ↔ ∀ x ∈ items, x.Genuine := by
  induction items with
  | nil => simp [GenuineItems]
  | cons x rest ih => simp [GenuineItems, ih]

/-- Fields are genuine when each of their values is. -/
theorem genuineFields_iff {fields : List (String × Json)} :
    GenuineFields fields ↔ ∀ f ∈ fields, f.2.Genuine := by
  induction fields with
  | nil => simp [GenuineFields]
  | cons f rest ih => simp [GenuineFields, ih]

section Parts

variable {j : Json}

/-- What stands in a genuine value is genuine. -/
theorem Genuine.get? (h : j.Genuine) {key : String} {v : Json} (hv : j.get? key = some v) :
    v.Genuine := by
  cases j with
  | object fields =>
    rw [Genuine, genuineFields_iff] at h
    obtain ⟨before, after, rfl, -⟩ := List.lookup_eq_some_iff.mp hv
    exact h (key, v) (by simp)
  | _ => cases hv

/-- So is what stands in for a field that is missing. -/
theorem Genuine.getD (h : j.Genuine) (key : String) : (j.getD key).Genuine := by
  rw [Json.getD]
  cases hv : j.get? key with
  | none => trivial
  | some v => exact h.get? hv

/-- So is the content of a message. -/
theorem Genuine.payload (h : j.Genuine) (keys : List String) : (j.payload keys).Genuine := by
  rw [Json.payload]
  cases hv : (keys.filterMap j.get?).find? (!·.isNull) with
  | none => exact h
  | some v =>
    obtain ⟨key, -, hkey⟩ := List.mem_filterMap.mp (List.mem_of_find?_eq_some hv)
    exact h.get? hkey

/-- So is an item of a list. -/
theorem Genuine.item (h : j.Genuine) {items : List Json} (hitems : j.array? = some items)
    {v : Json} (hv : v ∈ items) : v.Genuine := by
  cases j with
  | array _ =>
    obtain rfl := Option.some.inj hitems
    rw [Genuine] at h
    exact genuineItems_iff.mp h v hv
  | _ => cases hitems

/-- The numbers of a genuine value can be represented. -/
theorem Genuine.representable (h : j.Genuine) : j.Representable := by
  cases j with
  | integer i => exact h
  | double x => exact h.1
  | _ => trivial

end Parts

/-! ### Finite numbers -/

/-- An integer of 64 bits has a finite double. -/
theorem isFinite_ofInt {i : Int} (hlow : minInt64 ≤ i) (hhigh : i < 2 ^ 64) :
    (ofInt i).isFinite = true := by
  have hsize : i.natAbs ≤ 2 ^ 64 := by
    rw [minInt64] at hlow
    omega
  have hlt : (i.natAbs : ℚ) < overflowBound :=
    calc (i.natAbs : ℚ) ≤ 2 ^ (64 : ℤ) := by exact_mod_cast hsize
      _ < 2 ^ (1023 : ℤ) := zpow_lt_zpow_right₀ one_lt_two (by decide)
      _ ≤ overflowBound := le_overflowBound
  rw [ofInt, isFinite_nearest_iff _ _ Nat.one_pos, Nat.cast_one, div_one]
  exact hlt

/-- A text that writes a number, but none that is finite as a double. -/
def WritesUnbounded : Json → Prop
  | string s => IsUnbounded (unsigned (trim s).toList)
  | _ => False

/-- Whatever a value of JSON is read as is finite, unless it is a text that writes no finite
number. -/
theorem isFinite_asDouble?_iff {j : Json} (hj : j.Genuine) :
    (j.asDouble?.getD zero).isFinite = true ↔ ¬j.WritesUnbounded := by
  match j, hj with
  | integer i, hj => exact iff_of_true (isFinite_ofInt hj.1 hj.2) not_false
  | double x, hj => exact iff_of_true hj.2 not_false
  | string s, _ =>
    rw [WritesUnbounded, isUnbounded_iff, asDouble?]
    cases ofText? (trim s) with
    | none => exact iff_of_true rfl (by rintro ⟨_, ⟨⟩, _⟩)
    | some x => simp
  | bool b, _ =>
    refine iff_of_true ?_ not_false
    cases b with
    | false => rfl
    | true => exact isFinite_ofInt (i := 1) (by decide) (by decide)
  | null, _ | array _, _ | object _, _ => exact iff_of_true rfl not_false

end VenueLink.Json

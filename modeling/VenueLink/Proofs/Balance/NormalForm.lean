import VenueLink.Balance
import VenueLink.Proofs.Json.Genuine

/-!
# Balances in normal form

A balance is written as JSON under the same keys that an entry of the venue has, so what is
written can be taken for such an entry again. From it the same balance is made, as long as its
amounts are finite: JSON has no other numbers, and an amount that is written as `null` counts as
zero.

## Main results

* `normal_form_is_kept`: a balance is made again from its JSON, and a list of balances from a
  message that carries the JSON of each.
-/

namespace VenueLink

open Text Double

namespace Json

/-- A finite number is read back. -/
theorem asDouble?_ofDouble {x : Double} (h : x.isFinite = true) :
    (ofDouble x).asDouble? = some x := by
  rw [ofDouble, if_pos h]
  rfl

/-- Whatever is written for a double is read as a finite one. -/
theorem isFinite_of_ofDouble (x : Double) :
    ((ofDouble x).asDouble?.getD zero).isFinite = true := by
  rw [ofDouble]
  split
  next h => exact h
  next => rfl

end Json

namespace Balance

open Json

variable {b : Balance} {entry raw : Json}

/-- The keys of the amounts. -/
def amountKeys : List String :=
  ["amount", "auth_amount", "enrolled_amount", "enrolled_sum_amount", "equivalent",
    "hold_amount", "orders_amount"]

/-- The amounts of a balance, in the order of their keys. -/
def amounts (b : Balance) : List Double :=
  [b.amount, b.authAmount, b.enrolledAmount, b.enrolledSumAmount, b.equivalent, b.holdAmount,
    b.ordersAmount]

/-- All amounts are finite. -/
def IsFinite (b : Balance) : Prop :=
  ∀ x ∈ b.amounts, x.isFinite = true

instance : Decidable b.IsFinite :=
  inferInstanceAs (Decidable (∀ x ∈ b.amounts, x.isFinite = true))

/-- The ids and the kind are integers of 64 bits. -/
structure Fits (b : Balance) : Prop where
  id : IsInt64 b.id
  userId : IsInt64 b.userId
  kind : IsInt64 b.kind

/-- The amounts of an entry stand under their keys, and count as zero where there are none. -/
theorem amounts_ofEntry (entry : Json) :
    (ofEntry entry).amounts = amountKeys.map fun key => (entry.getD key).asDouble?.getD zero :=
      rfl

/-- A whole number of an entry has 64 bits. -/
theorem isInt64_of_getD {j : Json} (h : j.Genuine) : IsInt64 (j.asInt?.getD 0) := by
  cases hread : j.asInt? with
  | none => decide
  | some i => exact isInt64_of_asInt? h.representable hread

/-- The integers that are read from an entry have 64 bits. -/
theorem fits_ofEntry (h : entry.Genuine) : (ofEntry entry).Fits where
  id := isInt64_of_getD (h.getD "id")
  userId := isInt64_of_getD (h.getD "user_id")
  kind := isInt64_of_getD (h.getD "type")

attribute [ext] Balance

/-- The amounts of a balance are read back from what it is written as. -/
theorem amounts_ofEntry_toJson (b : Balance) :
    (ofEntry b.toJson).amounts = b.amounts.map fun x => (ofDouble x).asDouble?.getD zero := rfl

/-- A balance is made again from its JSON. -/
theorem ofEntry_toJson (hfits : b.Fits) (hfinite : b.IsFinite) : ofEntry b.toJson = b := by
  have hinteger : ∀ {i : Int}, IsInt64 i → (integer i).asInt?.getD 0 = i := fun hi => by
    rw [asInt?_integer hi, Option.getD_some]
  have hamounts : (ofEntry b.toJson).amounts = b.amounts := by
    have hself : ∀ x ∈ b.amounts, (ofDouble x).asDouble?.getD zero = x := fun x hx => by
      rw [asDouble?_ofDouble (hfinite x hx), Option.getD_some]
    rw [amounts_ofEntry_toJson, List.map_congr_left hself, List.map_id']
  simp only [amounts, List.cons.injEq, and_true] at hamounts
  obtain ⟨hamount, hauth, henrolled, hsum, hequivalent, hhold, horders⟩ := hamounts
  exact Balance.ext (hinteger hfits.id) (hinteger hfits.userId) (hinteger hfits.kind) hamount
    henrolled hsum hhold horders rfl rfl rfl rfl hauth hequivalent

/-- Only a balance with finite amounts is made from the JSON of a balance. -/
theorem isFinite_ofEntry_toJson (b : Balance) : (ofEntry b.toJson).IsFinite := by
  rw [IsFinite, amounts_ofEntry_toJson, List.forall_mem_map]
  exact fun x _ => isFinite_of_ofDouble x

/-- A list under `balances` is found in the content of a message. -/
theorem listed?_of_get? {entries : List Json}
    (h : (raw.payload ["msg", "message"]).get? "balances" = some (array entries)) :
    listed? raw = some entries := by
  have hobject : (raw.payload ["msg", "message"]).array? = none := by
    cases hp : raw.payload ["msg", "message"] with
    | array items =>
      rw [hp] at h
      cases h
    | _ => rfl
  rw [listed?, hobject, h]
  rfl

/-- Without kinds, the balances of a message are made from all of its entries. -/
theorem extract_nil_of_listed {entries : List Json} (h : listed? raw = some entries) :
    extract raw [] = entries.map ofEntry := by
  rw [extract, h]
  exact List.filter_eq_self.mpr fun _ _ => rfl

/-- **Normal form.** A balance with integers of 64 bits is made again from its JSON, all
fourteen fields of it, exactly if its amounts are finite; so nothing is changed by making a
balance from an entry twice. Of a message whose content has the JSON of some such balances under
`balances`, these are the balances, in their order. -/
theorem normal_form_is_kept :
    (∀ b : Balance, b.Fits → (ofEntry b.toJson = b ↔ b.IsFinite)) ∧
      (∀ entry : Json, entry.Genuine → (ofEntry entry).IsFinite →
        ofEntry (ofEntry entry).toJson = ofEntry entry) ∧
      ∀ (raw : Json) (bs : List Balance), (∀ b ∈ bs, b.Fits ∧ b.IsFinite) →
        (raw.payload ["msg", "message"]).get? "balances" = some (array (bs.map toJson)) →
          extract raw [] = bs := by
  refine ⟨fun b hfits => ⟨fun h => ?_, ofEntry_toJson hfits⟩, fun entry hentry hfinite => ?_,
    fun raw bs hbs hlisted => ?_⟩
  · rw [← h]
    exact isFinite_ofEntry_toJson b
  · exact ofEntry_toJson (fits_ofEntry hentry) hfinite
  · have hself : ∀ b ∈ bs, (ofEntry ∘ toJson) b = b :=
      fun b hb => ofEntry_toJson (hbs b hb).1 (hbs b hb).2
    rw [extract_nil_of_listed (listed?_of_get? hlisted), List.map_map,
      List.map_congr_left hself, List.map_id']

/-- An entry with the integers at both ends of the range, a negative zero and no currency. -/
def edgeEntry : Json :=
  object [("amount", string "-0"), ("currency", null), ("enrolled_amount", bool true),
    ("id", integer 9223372036854775807), ("is_fiat", string "no"), ("type", string " 4 "),
    ("user_id", integer (-9223372036854775808))]

/-- Nothing is changed by making the balance twice, and it is found in a list after an empty
one. -/
theorem edgeEntry_is_kept :
    let b := ofEntry edgeEntry
    let empty := ofEntry null
    edgeEntry.Genuine ∧ b.IsFinite ∧ b.amount = finite true 0 minExponent ∧
      ofEntry b.toJson = b ∧
      extract (object [("balances", array [empty.toJson, b.toJson])]) [] = [empty, b] := by
  intro b empty
  obtain ⟨-, hagain, hlist⟩ := normal_form_is_kept
  have hgenuine : edgeEntry.Genuine := by
    simp [edgeEntry, Genuine, GenuineFields, minInt64]
  have hfinite : b.IsFinite := by decide +kernel
  have hfits := fits_ofEntry hgenuine
  have hempty : empty.Fits := ⟨by decide, by decide, by decide⟩
  refine ⟨hgenuine,
    hfinite, by decide +kernel, hagain edgeEntry hgenuine hfinite, hlist _ [empty, b] ?_ rfl⟩
  simp only [List.forall_mem_cons, List.not_mem_nil, false_implies, implies_true, and_true]
  exact ⟨⟨hempty, by decide⟩, hfits, hfinite⟩

end Balance

end VenueLink

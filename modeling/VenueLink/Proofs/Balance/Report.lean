import VenueLink.Broker.Call
import VenueLink.Proofs.Balance.NormalForm
import VenueLink.Proofs.Venue.Frames

/-!
# Amounts in the answer to a caller

The amounts that the venue sends as texts may be such that no finite double is near: `nan`, an
infinity, or a decimal that is too large. They are taken over all the same, and written as
`null` in the answer to the caller, which is then not read back. Every other answer has a number
as each of its amounts and is read back with all its parts.

## Main results

* `report_has_numbers_iff`: the messages from which an answer with numbers is made.
-/

namespace VenueLink

open Text Double

open Document (ofJson exists_of_bind_eq_ok)

/-- There is no fault where something is read. -/
theorem Fields.faultOf_eq_none_iff {x : Except Fault α} :
    faultOf x = none ↔ ∃ a, x = .ok a := by
  cases x with
  | error f => exact iff_of_false nofun (by rintro ⟨_, ⟨⟩⟩)
  | ok a => exact iff_of_true rfl ⟨a, rfl⟩

namespace Balance

variable {b : Balance}

/-- A finite number is read back. -/
theorem double_ofDouble {x : Double} (h : x.isFinite = true) :
    Reading.double (ofJson (.ofDouble x)) = .ok x := by
  rw [Json.ofDouble, if_pos h]
  rfl

/-- A number that is written and read was finite. -/
theorem isFinite_of_double {x y : Double} (h : Reading.double (ofJson (.ofDouble x)) = .ok y) :
    x.isFinite = true := by
  by_contra hx
  rw [Json.ofDouble, if_neg hx] at h
  cases h

/-- A whole number of 64 bits is read back. -/
theorem int64_integer {i : Int} (h : IsInt64 i) :
    Reading.int64 (ofJson (.integer i)) = .ok i := by
  rw [ofJson, Reading.int64, Reading.integer, if_pos (by simpa [IsInt64] using h)]

/-- A balance is read back. -/
theorem read_toJson (hfits : b.Fits) (hfinite : b.IsFinite) :
    fields.read (ofJson b.toJson) = .ok b := by
  have hid := int64_integer hfits.id
  have huser := int64_integer hfits.userId
  have hkind := int64_integer hfits.kind
  simp only [IsFinite, amounts, List.forall_mem_cons, List.not_mem_nil, false_implies,
    implies_true, and_true] at hfinite
  obtain ⟨hamount, hauth, henrolled, hsum, hequivalent, hhold, horders⟩ := hfinite
  have hamount := double_ofDouble hamount
  have hauth := double_ofDouble hauth
  have henrolled := double_ofDouble henrolled
  have hsum := double_ofDouble hsum
  have hequivalent := double_ofDouble hequivalent
  have hhold := double_ofDouble hhold
  have horders := double_ofDouble horders
  rw [toJson, Fields.read_ofJson]
  · simp only [fields, Fields.build_seq, Fields.build_map]
    rw [Fields.build_field (d := ofJson (.integer b.id)) rfl, hid,
      Fields.build_field (d := ofJson (.integer b.userId)) rfl, huser,
      Fields.build_field (d := ofJson (.integer b.kind)) rfl, hkind,
      Fields.build_field (d := ofJson (.ofDouble b.amount)) rfl, hamount,
      Fields.build_field (d := ofJson (.ofDouble b.enrolledAmount)) rfl, henrolled,
      Fields.build_field (d := ofJson (.ofDouble b.enrolledSumAmount)) rfl, hsum,
      Fields.build_field (d := ofJson (.ofDouble b.holdAmount)) rfl, hhold,
      Fields.build_field (d := ofJson (.ofDouble b.ordersAmount)) rfl, horders,
      Fields.build_field (d := .string b.currency) rfl,
      Fields.build_field (d := .bool b.isFiat) rfl, Fields.build_field (d := .bool b.isMarginal)
        rfl, Fields.build_field (d := .bool b.hasDeposits) rfl,
      Fields.build_field (d := ofJson (.ofDouble b.authAmount)) rfl, hauth,
      Fields.build_field (d := ofJson (.ofDouble b.equivalent)) rfl, hequivalent]
    rfl
  · simp only [List.forall_mem_cons, List.not_mem_nil, false_implies, implies_true, and_true]
    exact ⟨⟨_, rfl, Fields.faultOf_ok hamount⟩, ⟨_, rfl, Fields.faultOf_ok hauth⟩,
      ⟨_, rfl, rfl⟩, ⟨_, rfl, Fields.faultOf_ok henrolled⟩, ⟨_, rfl, Fields.faultOf_ok hsum⟩,
      ⟨_, rfl, Fields.faultOf_ok hequivalent⟩, ⟨_, rfl, rfl⟩, ⟨_, rfl, Fields.faultOf_ok hhold⟩,
      ⟨_, rfl, Fields.faultOf_ok hid⟩, ⟨_, rfl, rfl⟩, ⟨_, rfl, rfl⟩,
      ⟨_, rfl, Fields.faultOf_ok horders⟩, ⟨_, rfl, Fields.faultOf_ok hkind⟩,
      ⟨_, rfl, Fields.faultOf_ok huser⟩⟩
  · simp

/-! ### Numbers as amounts -/

/-- A number is written as one when it is finite. -/
theorem ofDouble_eq_double_iff {x : Double} :
    (∃ y, Json.ofDouble x = .double y) ↔ x.isFinite = true := by
  rw [Json.ofDouble]
  split
  next h => exact iff_of_true ⟨x, rfl⟩ h
  next h => exact iff_of_false (by rintro ⟨_, ⟨⟩⟩) h

/-- What is written under the keys of the amounts. -/
theorem get?_toJson_amountKeys (b : Balance) :
    amountKeys.map b.toJson.get? = b.amounts.map fun x => some (.ofDouble x) := rfl

/-- The amounts of a balance are finite when each is written as a number. -/
theorem isFinite_iff_get? :
    b.IsFinite ↔ ∀ key ∈ amountKeys, ∃ x, b.toJson.get? key = some (.double x) := by
  rw [← List.forall_mem_map (P := fun v => ∃ x, v = some (Json.double x)),
    get?_toJson_amountKeys, List.forall_mem_map]
  simp only [Option.some_inj, ofDouble_eq_double_iff]
  exact Iff.rfl

/-- An amount is finite unless it is read from a text that writes no finite number. -/
theorem isFinite_amounts_iff {entry : Json} (h : entry.Genuine) :
    List.Forall₂ (fun key x => x.isFinite = true ↔ ¬(entry.getD key).WritesUnbounded) amountKeys
      (ofEntry entry).amounts := by
  rw [amounts_ofEntry, List.forall₂_map_right_iff, List.forall₂_same]
  exact fun key _ => Json.isFinite_asDouble?_iff (h.getD key)

/-- They are when no amount of the entry is written without bound. -/
theorem isFinite_ofEntry_iff {entry : Json} (h : entry.Genuine) :
    (ofEntry entry).IsFinite ↔ ∀ key ∈ amountKeys, ¬(entry.getD key).WritesUnbounded := by
  rw [IsFinite, amounts_ofEntry, List.forall_mem_map]
  exact forall₂_congr fun key _ => Json.isFinite_asDouble?_iff (h.getD key)

/-- The amounts are read as doubles. -/
theorem slot_of_mem_amountKeys {key : String} (h : key ∈ amountKeys) :
    fields.slots.find? (·.key == key) =
      some ⟨key, fun d => Fields.faultOf (Reading.double d), false⟩ := by
  have hslots : (amountKeys.map fun key => fields.slots.find? (·.key == key)) =
      amountKeys.map fun key => some ⟨key, fun d => Fields.faultOf (Reading.double d), false⟩ :=
        rfl
  exact List.map_inj_left.mp hslots key h

/-- A balance is read back only if its amounts are finite. -/
theorem isFinite_of_read {a : Balance} (h : fields.read (ofJson b.toJson) = .ok a) :
    b.IsFinite := by
  rw [isFinite_iff_get?]
  intro key hkey
  obtain ⟨x, hx⟩ : ∃ x, b.toJson.get? key = some (.ofDouble x) := by
    have hmem := List.mem_map_of_mem (f := b.toJson.get?) hkey
    rw [get?_toJson_amountKeys] at hmem
    obtain ⟨x, -, hx⟩ := List.mem_map.mp hmem
    exact ⟨x, hx.symm⟩
  have hcheck := Fields.check_of_read h hx (slot_of_mem_amountKeys hkey)
  obtain ⟨y, hy⟩ := Fields.faultOf_eq_none_iff.mp hcheck
  obtain ⟨z, hz⟩ := ofDouble_eq_double_iff.mpr (isFinite_of_double hy)
  exact ⟨z, by rw [hx, hz]⟩

/-! ### The answer to a caller -/

/-- Every record of the answer has a number under the key of each amount. -/
def HasNumbers (response : Json) : Prop :=
  ∀ records, (response.get? "balances").bind Json.array? = some records →
    ∀ record ∈ records, ∀ key ∈ amountKeys, ∃ x, record.get? key = some (.double x)

/-- A report has numbers everywhere when the amounts of its balances are finite. -/
theorem hasNumbers_iff {report : BalanceReport} :
    HasNumbers report.toJson ↔ ∀ b ∈ report.balances, b.IsFinite := by
  have hrecords : (report.toJson.get? "balances").bind Json.array? =
      some (report.balances.map toJson) := rfl
  simp only [HasNumbers, hrecords, Option.some_inj, forall_eq', List.forall_mem_map,
    isFinite_iff_get?]

/-- The lists of balances in a message, wherever they are, are parts of it. -/
theorem genuine_of_listed {raw : Json} (h : raw.Genuine) {entries : List Json}
    (hentries : listed? raw = some entries) {entry : Json} (hentry : entry ∈ entries) :
    entry.Genuine := by
  have hpayload := h.payload ["msg", "message"]
  rw [listed?] at hentries
  generalize raw.payload ["msg", "message"] = p at hentries hpayload
  split at hentries
  next items hitems =>
    obtain rfl := Option.some.inj hentries
    exact hpayload.item hitems hentry
  next =>
    split at hentries
    next items hitems =>
      obtain rfl := Option.some.inj hentries
      obtain ⟨v, hv, hitems⟩ := Option.bind_eq_some_iff.mp hitems
      exact (hpayload.get? hv).item hitems hentry
    next =>
      obtain ⟨v, hv, hitems⟩ := Option.bind_eq_some_iff.mp hentries
      obtain ⟨result, hresult, hv⟩ := Option.bind_eq_some_iff.mp hv
      exact ((hpayload.get? hresult).get? hv).item hitems hentry

/-- A balance is taken from an entry of the list whose kind is asked for. -/
theorem mem_extract_iff {raw : Json} {kinds : List Int} :
    b ∈ extract raw kinds ↔ ∃ entries, listed? raw = some entries ∧
      ∃ entry ∈ entries, isOfKind kinds (ofEntry entry) = true ∧ ofEntry entry = b := by
  rw [extract]
  cases listed? raw with
  | none => simp
  | some entries =>
    simp only [List.mem_filter, List.mem_map, Option.some_inj, exists_eq_left']
    constructor
    · rintro ⟨⟨entry, hentry, rfl⟩, hkind⟩
      exact ⟨entry, hentry, hkind, rfl⟩
    · rintro ⟨entry, hentry, hkind, rfl⟩
      exact ⟨⟨entry, hentry, rfl⟩, hkind⟩

section Extract

variable {raw : Json} (h : raw.Genuine) {kinds : List Int}

include h

/-- Its whole numbers have 64 bits. -/
theorem fits_of_mem_extract (hb : b ∈ extract raw kinds) : b.Fits := by
  obtain ⟨entries, hentries, entry, hentry, -, rfl⟩ := mem_extract_iff.mp hb
  exact fits_ofEntry (genuine_of_listed h hentries hentry)

/-- All balances are finite when no amount of a wanted entry is written without bound. -/
theorem isFinite_extract_iff : (∀ b ∈ extract raw kinds, b.IsFinite) ↔
    ∀ entries, listed? raw = some entries →
      ∀ entry ∈ entries, isOfKind kinds (ofEntry entry) = true →
      ∀ key ∈ amountKeys, ¬(entry.getD key).WritesUnbounded := by
  constructor
  · intro hfinite entries hentries entry hentry hkind
    rw [← isFinite_ofEntry_iff (genuine_of_listed h hentries hentry)]
    exact hfinite _ (mem_extract_iff.mpr ⟨entries, hentries, entry, hentry, hkind, rfl⟩)
  · intro hbounded b hb
    obtain ⟨entries, hentries, entry, hentry, hkind, rfl⟩ := mem_extract_iff.mp hb
    rw [isFinite_ofEntry_iff (genuine_of_listed h hentries hentry)]
    exact hbounded entries hentries entry hentry hkind

end Extract

end Balance

namespace BalanceReport

open Balance

/-- The answer is read back if its balances are. -/
theorem read_toJson {report : BalanceReport} (h : ∀ b ∈ report.balances, b.Fits ∧ b.IsFinite) :
    fields.read (ofJson report.toJson) = .ok report := by
  have hlist :
      Reading.list Balance.fields.read (ofJson (.array (report.balances.map Balance.toJson))) =
      .ok report.balances := by
    rw [ofJson, Reading.list, Reading.items_map
      fun b hb => Balance.read_toJson (h b hb).1 (h b hb).2]
    rfl
  rw [toJson, Fields.read_ofJson]
  · simp only [fields, Fields.build_seq, Fields.build_map]
    rw [Fields.build_field (d := .bool report.success) rfl,
      Fields.build_field (d := ofJson (.array (report.balances.map Balance.toJson))) rfl, hlist]
    rfl
  · simp only [List.forall_mem_cons, List.not_mem_nil, false_implies, implies_true, and_true]
    exact ⟨⟨_, rfl, Fields.faultOf_ok hlist⟩, ⟨_, rfl, rfl⟩⟩
  · simp

/-- The answer is read as anything at all only if all amounts are finite. -/
theorem isFinite_of_read {report other : BalanceReport}
    (h : fields.read (ofJson report.toJson) = .ok other) :
    ∀ b ∈ report.balances, b.IsFinite := by
  have hget :
      report.toJson.get? "balances" = some (.array (report.balances.map Balance.toJson)) := rfl
  have hslot : fields.slots.find? (·.key == "balances") =
      some ⟨"balances", fun d => Fields.faultOf (Reading.list Balance.fields.read d), false⟩ :=
        rfl
  obtain ⟨bs, hbs⟩ := Fields.faultOf_eq_none_iff.mp (Fields.check_of_read h hget hslot)
  rw [ofJson, Reading.list] at hbs
  obtain ⟨items, hitems, -⟩ := exists_of_bind_eq_ok hbs
  intro b hb
  obtain ⟨a, ha⟩ := Reading.exists_of_items hitems hb
  exact Balance.isFinite_of_read ha

end BalanceReport

namespace Balance

open Json

/-- **Amounts.** An amount that is made from an entry of the venue is finite unless it is read
from a text that is one of the words for what is not finite, or a decimal that is too large. So
the answer that a caller gets for a message has a number as each of its amounts exactly if no
entry of a wanted kind has such a text as an amount; then the answer is read back, and otherwise
nothing is. -/
theorem report_has_numbers_iff {record raw : Json} (hrecord : record.Genuine)
    (hraw : raw.Genuine) (kinds : List Int) (seen : List Json) :
    List.Forall₂ (fun key x => x.isFinite = true ↔ ¬(record.getD key).WritesUnbounded)
        amountKeys (ofEntry record).amounts ∧
      let report :=
        Call.balanceReport (.matched ⟨(Answer.toBalances kinds).answer raw, raw, seen⟩)
      (HasNumbers report.toJson ↔
        ∀ entries, listed? raw = some entries →
          ∀ entry ∈ entries, isOfKind kinds (ofEntry entry) = true →
          ∀ key ∈ amountKeys, ¬(entry.getD key).WritesUnbounded) ∧
      (HasNumbers report.toJson →
        readJson BalanceReport.fields.read report.toJson = .ok report) ∧
      (¬HasNumbers report.toJson →
        readJson BalanceReport.fields.read report.toJson = .error .mismatch) := by
  refine ⟨isFinite_amounts_iff hrecord, ?_⟩
  intro report
  refine ⟨?_, fun h => ?_, fun h => ?_⟩
  · rw [hasNumbers_iff]
    exact isFinite_extract_iff hraw
  · have hall : ∀ b ∈ report.balances, b.Fits ∧ b.IsFinite := fun b hb =>
      ⟨fits_of_mem_extract hraw hb, hasNumbers_iff.mp h b hb⟩
    rw [readJson, BalanceReport.read_toJson hall]
    rfl
  · rw [readJson]
    cases hread : BalanceReport.fields.read (ofJson report.toJson) with
    | error fault => rfl
    | ok other => exact absurd (hasNumbers_iff.mpr (BalanceReport.isFinite_of_read hread)) h

/-- An entry with amounts as texts and as a truth value; the largest one is just below the
bound. -/
def textEntry : Json :=
  object [("amount", string " 179769313486231580793e288 "), ("enrolled_amount", bool true),
    ("hold_amount", string "-.5E-400"), ("id", integer 7)]

/-- No text in it is unbounded, and the answer for a message with this entry has numbers only
and is read back. -/
theorem textAmounts_are_numbers :
    let raw := object [("msg", array [textEntry])]
    let report := Call.balanceReport (.matched ⟨(Answer.toBalances []).answer raw, raw, []⟩)
    textEntry.Genuine ∧ raw.Genuine ∧
      (∀ key ∈ amountKeys, ¬(textEntry.getD key).WritesUnbounded) ∧
      HasNumbers report.toJson ∧
        readJson BalanceReport.fields.read report.toJson = .ok report := by
  intro raw report
  have hentry : textEntry.Genuine := by simp [textEntry, Genuine, GenuineFields, minInt64]
  have hraw : raw.Genuine := by simp [raw, hentry, Genuine, GenuineFields, GenuineItems]
  obtain ⟨-, hiff, hread, -⟩ := report_has_numbers_iff hentry hraw [] []
  have hfinite : ∀ b ∈ report.balances, b.IsFinite := by decide +kernel
  have hnumbers : HasNumbers report.toJson := hasNumbers_iff.mpr hfinite
  have hbounded := hiff.mp hnumbers [textEntry] rfl textEntry List.mem_cons_self (by decide)
  exact ⟨hentry, hraw, hbounded, hnumbers, hread hnumbers⟩

/-- An amount that is sent as `nan`, or as a decimal that is too large, makes the answer
unreadable. -/
theorem nan_is_no_number :
    let entry (amount : String) := object [("amount", string amount), ("id", integer 7)]
    let answer (amount : String) :=
      (BalanceReport.mk true (extract (array [entry amount]) [])).toJson
    (ofEntry (entry "nan")).amount = nan ∧ (ofEntry (entry "1e400")).amount = infinite false ∧
      readJson BalanceReport.fields.read (answer "nan") = .error .mismatch ∧
      readJson BalanceReport.fields.read (answer "1e400") = .error .mismatch ∧
      ¬∀ entry : Json, entry.Genuine → (ofEntry entry).IsFinite := by
  intro entry answer
  have hnan : (ofEntry (entry "nan")).amount = nan := by decide +kernel
  refine ⟨hnan, by decide +kernel, by decide +kernel, by decide +kernel, fun h => ?_⟩
  have hgenuine : (entry "nan").Genuine := by simp [entry, Genuine, GenuineFields, minInt64]
  have hfinite := h _ hgenuine nan (hnan ▸ List.mem_cons_self)
  cases hfinite

end Balance

end VenueLink

import VenueLink.Http.Form
import VenueLink.Proofs.Text.ReadBack
import VenueLink.Proofs.Text.Splitting

/-!
# Queries that are read back

A percent-encoded value consists of `%` and hexadecimal digits, so that it cannot be taken for
anything else in the target of a request, and is decoded to the text that it stands for,
whatever that text is.

## Main results

* `Form.decodeValue_encodeValue`: a value is decoded from its percent-encoding.
* `Form.field_append`: a field with a percent-encoded value has that value.
-/

namespace VenueLink.Http

open Text

namespace Form

/-! ### Percent-encoding -/

/-- A hexadecimal digit. -/
def IsHexDigit (c : Char) : Prop :=
  48 ≤ c.toNat ∧ c.toNat ≤ 57 ∨ 65 ≤ c.toNat ∧ c.toNat ≤ 70

/-- The digits of an escape are hexadecimal, and read back. -/
theorem hexDigit_spec :
    ∀ n < 16, IsHexDigit (hexDigit n) ∧ hexByte? (hexDigit n).toNat = some n := by
  unfold IsHexDigit
  decide

/-- The characters of a percent-encoded value. -/
theorem of_mem_encodeBytes {bytes : List Nat} (hbytes : ∀ b ∈ bytes, b < 256) {c : Char}
    (hc : c ∈ bytes.flatMap percentEncodeByte) : c = '%' ∨ IsHexDigit c := by
  obtain ⟨b, hb, hc⟩ := List.mem_flatMap.mp hc
  have hlt := hbytes b hb
  simp only [percentEncodeByte, List.mem_cons, List.not_mem_nil, or_false] at hc
  rcases hc with rfl | rfl | rfl
  · exact .inl rfl
  · exact .inr (hexDigit_spec _ (by omega)).1
  · exact .inr (hexDigit_spec _ (by omega)).1

/-- In an encoded value there are percent signs and hexadecimal digits. -/
theorem of_mem_encodeValue {s : String} {c : Char} (hc : c ∈ encodeValue s) :
    c = '%' ∨ IsHexDigit c :=
  of_mem_encodeBytes (fun _ hb => Utf8.lt_of_mem_encode hb) hc

/-- Characters that mean something in a target do not stand in a percent-encoded value. -/
theorem not_mem_encodeValue {s : String} {c : Char} (hpercent : c ≠ '%')
    (hhex : ¬IsHexDigit c) :
    c ∉ encodeValue s := fun hc => (of_mem_encodeValue hc).elim hpercent hhex

/-- The bytes of a percent-encoded list of bytes are decoded to that list. -/
theorem percentDecode_encodeBytes {bytes : List Nat} (hbytes : ∀ b ∈ bytes, b < 256) :
    percentDecode ((bytes.flatMap percentEncodeByte).map Char.toNat) = bytes := by
  induction bytes with
  | nil => rfl
  | cons b rest ih =>
    have hlt := hbytes b List.mem_cons_self
    rw [List.flatMap_cons, List.map_append, percentEncodeByte]
    simp only [List.map_cons, List.map_nil, List.cons_append, List.nil_append]
    rw [show ('%' : Char).toNat = 37 from rfl, percentDecode,
      (hexDigit_spec (b / 16) (by omega)).2, (hexDigit_spec (b % 16) (by omega)).2]
    dsimp only
    rw [ih fun b' hb' => hbytes b' (List.mem_cons_of_mem _ hb'),
      show b / 16 * 16 + b % 16 = b by omega]

/-- A value is decoded from its percent-encoding, whatever characters it has. -/
theorem decodeValue_encodeValue (s : String) : decodeValue (encodeValue s) = s := by
  have hascii : ∀ c ∈ encodeValue s, c.toNat < 0x80 := fun c hc => by
    rcases of_mem_encodeValue hc with rfl | h
    · decide
    · unfold IsHexDigit at h
      omega
  have hplus :
      plusToBlank ((encodeValue s).map Char.toNat) = (encodeValue s).map Char.toNat := by
    have hne : ∀ b ∈ (encodeValue s).map Char.toNat, b ≠ 43 := fun b hb => by
      obtain ⟨c, hc, rfl⟩ := List.mem_map.mp hb
      rcases of_mem_encodeValue hc with rfl | h
      · decide
      · unfold IsHexDigit at h
        omega
    exact (List.map_congr_left fun b hb => if_neg (hne b hb)).trans (List.map_id _)
  rw [decodeValue, Utf8.encode_of_ascii hascii, hplus, encodeValue,
    percentDecode_encodeBytes fun _ hb => Utf8.lt_of_mem_encode hb, Utf8.decodeLossy_encode,
    String.ofList_toList]

/-! ### Fields -/

/-- The part of a text in front of a character that it has not had before, and the part behind
it. -/
theorem span_append {p : Char → Bool} {front : List Char} (hfront : ∀ c ∈ front, p c = true)
    (mark : Char) (hmark : p mark = false) (back : List Char) :
    (front ++ mark :: back).takeWhile p = front ∧
      (front ++ mark :: back).dropWhile p = mark :: back := by
  constructor
  · rw [List.takeWhile_append_of_pos hfront, List.takeWhile_cons_of_neg (by simp [hmark]),
      List.append_nil]
  · rw [List.dropWhile_append_of_pos hfront, List.dropWhile_cons_of_neg (by simp [hmark])]

/-- A field with a percent-encoded value. -/
theorem field_append {name : List Char} (hname : ∀ c ∈ name, (c != '=') = true)
    (value : String) :
    field (name ++ '=' :: encodeValue value) = (decodeValue name, value) := by
  obtain ⟨htake, hdrop⟩ := span_append hname '=' (by decide) (encodeValue value)
  rw [field, htake, hdrop, List.drop_one, List.tail_cons, decodeValue_encodeValue]

end Form

end VenueLink.Http

import Mathlib.Data.String.Basic
import VenueLink.Text.Utf8

/-!
# Texts in the order of their bytes

Texts are compared character by character. UTF-8 is made so that comparing their bytes comes to
the same: the bytes of a character with a larger number are larger, and no character's bytes
begin another's.

## Main results

* `Utf8.encodeChar_append_lt`: of two characters, the smaller one has the smaller bytes.
* `lt_iff_encode_lt`: the order of texts is the order of their bytes.
-/

namespace VenueLink.Text

namespace Utf8

/-- The bytes of a smaller character are smaller, whatever follows. -/
theorem encodeChar_append_lt {c d : Char} (h : c < d) (xs ys : List Nat) :
    encodeChar c ++ xs < encodeChar d ++ ys := by
  have hlt : c.toNat < d.toNat := h
  simp only [encodeChar]
  generalize c.toNat = m at hlt
  generalize d.toNat = n at hlt
  -- as many bytes for each: they differ in one of them; more bytes for `d`: its first byte is
  -- larger
  split_ifs <;> simp only [List.cons_append, List.nil_append, List.cons_lt_cons_iff] <;> omega

/-- Every character has some bytes. -/
theorem encodeChar_ne_nil (c : Char) : encodeChar c ≠ [] := by
  simp only [encodeChar]
  split_ifs <;> exact List.cons_ne_nil _ _

/-- The bytes of texts are in the order of the texts. -/
theorem encode_lt {cs ds : List Char} (h : cs < ds) : encode cs < encode ds := by
  induction h with
  | @nil d ds =>
    obtain ⟨b, bs, hbytes⟩ := List.exists_cons_of_ne_nil (encodeChar_ne_nil d)
    rw [encode, encode, List.flatMap_cons, hbytes]
    exact List.nil_lt_cons _ _
  | rel h => exact encodeChar_append_lt h _ _
  | cons _ ih => exact List.append_left_lt ih

end Utf8

/-- Texts are in the order of their bytes. -/
theorem lt_iff_encode_lt {a b : String} :
    a < b ↔ Utf8.encode a.toList < Utf8.encode b.toList := by
  refine ⟨fun h => Utf8.encode_lt (String.lt_iff_toList_lt.mp h), fun h => ?_⟩
  rcases lt_trichotomy a b with hab | rfl | hba
  · exact hab
  · exact absurd h (lt_irrefl _)
  · exact absurd h (lt_asymm (Utf8.encode_lt (String.lt_iff_toList_lt.mp hba)))

end VenueLink.Text

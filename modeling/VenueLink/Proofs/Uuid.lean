import VenueLink.Proofs.Text.ReadBack
import VenueLink.Uuid

/-!
# Identifiers that are read back

The text of an identifier has 32 digits in five groups. It begins with a digit, so it is in none
of the longer forms, and it is too long to be without hyphens; put together again, the groups
are the digits of the number (`Uuid.ofText?_text`).
-/

namespace VenueLink.Uuid

open Text

/-! ### Digits -/

/-- A hexadecimal digit is read back. -/
theorem hexValue?_digitChar : ∀ n < 16, hexValue? (Nat.digitChar n) = some n := by
  decide

/-- No digit is one of the characters with which a longer form begins. -/
theorem digitChar_ne : ∀ n < 16, Nat.digitChar n ≠ '\x7b' ∧ Nat.digitChar n ≠ 'u' := by
  decide

/-- There are as many digits as are asked for. -/
theorem length_hexDigits (width n : Nat) : (hexDigits width n).length = width := by
  induction width generalizing n with
  | zero => rfl
  | succ width ih => rw [hexDigits, List.length_append, ih, List.length_singleton]

/-- They are hexadecimal. -/
theorem of_mem_hexDigits {width n : Nat} {c : Char} (h : c ∈ hexDigits width n) :
    ∃ d < 16, c = Nat.digitChar d := by
  induction width generalizing n with
  | zero => cases h
  | succ width ih =>
    rw [hexDigits, List.mem_append, List.mem_singleton] at h
    rcases h with h | rfl
    · exact ih h
    · exact ⟨n % 16, Nat.mod_lt _ (by decide), rfl⟩

/-- Digits are read one after the other. -/
theorem readHex?_append (acc : Nat) (cs ds : List Char) :
    readHex? acc (cs ++ ds) = (readHex? acc cs).bind fun n => readHex? n ds := by
  induction cs generalizing acc with
  | nil => rfl
  | cons c rest ih =>
    rw [List.cons_append, readHex?, readHex?]
    cases hexValue? c with
    | none => rfl
    | some d => exact ih _

/-- The digits of a number are read as that number, as far as they reach. -/
theorem readHex?_hexDigits (acc width n : Nat) :
    readHex? acc (hexDigits width n) = some (acc * 16 ^ width + n % 16 ^ width) := by
  induction width generalizing n with
  | zero => simp [hexDigits, readHex?, Nat.mod_one]
  | succ width ih =>
    have hlast : n % 16 ^ (width + 1) = n / 16 % 16 ^ width * 16 + n % 16 := by
      rw [Nat.pow_succ', Nat.mod_mul, Nat.mul_comm 16, Nat.add_comm]
    rw [hexDigits, readHex?_append, ih, Option.bind_some, readHex?,
      hexValue?_digitChar _ (Nat.mod_lt _ (by decide)), hlast, Nat.pow_succ]
    exact congrArg some (by rw [Nat.add_mul, Nat.mul_assoc, Nat.add_assoc])

/-- The digits of an identifier are read as it is. -/
theorem ofDigits?_hexDigits (u : Uuid) : ofDigits? (hexDigits 32 u.value) = some u := by
  have hcount : 16 ^ 32 = count := rfl
  have hvalue : ofNat u.value = u := by
    cases u with
    | mk value hlt => simp only [ofNat, Nat.mod_eq_of_lt hlt]
  rw [ofDigits?, if_pos (length_hexDigits _ _), readHex?_hexDigits, hcount, Nat.zero_mul,
    Nat.zero_add, Nat.mod_eq_of_lt u.value_lt, Option.map_some, hvalue]

/-! ### Groups -/

section Group

variable {group r : List Char} {n : Nat} (h : group.length = n)
include h

/-- A group ends before its hyphen. -/
theorem take_group : (group ++ '-' :: r).take n = group :=
  List.take_left' h

/-- The hyphen stands after the group. -/
theorem getElem?_hyphen : (group ++ '-' :: r)[n]? = some '-' := by
  rw [List.getElem?_append_right h.le, h, Nat.sub_self]
  rfl

/-- What comes after the hyphen is the rest. -/
theorem drop_group (k : Nat) : (group ++ '-' :: r).drop (n + 1 + k) = r.drop k := by
  rw [← List.drop_drop, ← List.drop_drop, List.drop_left' h]
  rfl

/-- What stands after the hyphen stands in the rest. -/
theorem getElem?_group (k : Nat) : (group ++ '-' :: r)[n + 1 + k]? = r[k]? := by
  rw [← List.getElem?_drop, drop_group h 0]
  rfl

end Group

/-- Groups with hyphens between them are read as the digits that they have together. -/
theorem ofHyphened?_groups {a b c d e : List Char} (ha : a.length = 8) (hb : b.length = 4)
    (hc : c.length = 4) (hd : d.length = 4) (he : e.length = 12) :
    ofHyphened? (a ++ '-' :: (b ++ '-' :: (c ++ '-' :: (d ++ '-' :: e)))) =
      ofDigits? (a ++ b ++ c ++ d ++ e) := by
  have hlength : (a ++ '-' :: (b ++ '-' :: (c ++ '-' :: (d ++ '-' :: e)))).length = 36 := by
    simp only [List.length_append, List.length_cons, ha, hb, hc, hd, he]
  have hhyphens : [8, 13, 18, 23].all (fun i =>
      decide ((a ++ '-' :: (b ++ '-' :: (c ++ '-' :: (d ++ '-' :: e))))[i]? = some '-')) =
        true := by
    simp only [List.all_cons, List.all_nil, Bool.and_true, Bool.and_eq_true, decide_eq_true_eq]
    refine ⟨getElem?_hyphen ha, ?_, ?_, ?_⟩
    · exact (getElem?_group ha 4).trans (getElem?_hyphen hb)
    · exact (getElem?_group ha 9).trans ((getElem?_group hb 4).trans (getElem?_hyphen hc))
    · exact (getElem?_group ha 14).trans
        ((getElem?_group hb 9).trans ((getElem?_group hc 4).trans (getElem?_hyphen hd)))
  have hb' := drop_group ha 0 (r := b ++ '-' :: (c ++ '-' :: (d ++ '-' :: e)))
  have hc' := (drop_group ha 5).trans (drop_group hb 0 (r := c ++ '-' :: (d ++ '-' :: e)))
  have hd' :=
    (drop_group ha 10).trans ((drop_group hb 5).trans (drop_group hc 0 (r := d ++ '-' :: e)))
  have he' := (drop_group ha 15).trans
    ((drop_group hb 10).trans ((drop_group hc 5).trans (drop_group hd 0 (r := e))))
  rw [List.drop_zero] at hb' hc' hd' he'
  rw [ofHyphened?, hlength, hhyphens, if_pos (by decide), take_group ha, hb', hc', hd', he',
    take_group hb, take_group hc, take_group hd]

/-- A text that begins with a digit is in none of the longer forms. -/
theorem ofText?_of_digit {d : Nat} (hd : d < 16) (cs : List Char) :
    ofText? (String.ofList (Nat.digitChar d :: cs)) =
      (ofDigits? (Nat.digitChar d :: cs)).orElse
        fun _ => ofHyphened? (Nat.digitChar d :: cs) := by
  obtain ⟨hbrace, hu⟩ := digitChar_ne d hd
  have hurn : urn.isPrefixOf (Nat.digitChar d :: cs) = false := by
    have hcons : urn = 'u' :: urn.tail := by decide
    rw [hcons, List.isPrefixOf_cons_cons, beq_eq_false_iff_ne.mpr (Ne.symm hu), Bool.false_and]
  rw [ofText?, String.toList_ofList]
  split
  next heq => exact absurd (List.cons.inj heq).1 hbrace
  next => rw [hurn, if_neg (by decide)]

/-- An identifier is read back from its text. -/
theorem ofText?_text (u : Uuid) : ofText? u.text = some u := by
  obtain ⟨ds, hds⟩ : ∃ ds, ds = hexDigits 32 u.value := ⟨_, rfl⟩
  have hlength : ds.length = 32 := hds ▸ length_hexDigits _ _
  have hall : ds.take 8 ++ (ds.drop 8).take 4 ++ (ds.drop 12).take 4 ++ (ds.drop 16).take 4 ++
      ds.drop 20 = ds := by
    rw [← List.take_add, ← List.take_add, ← List.take_add, List.take_append_drop]
  obtain ⟨groups, hgroups⟩ :
      ∃ groups, groups = ds.take 8 ++ '-' :: ((ds.drop 8).take 4 ++ '-' ::
      ((ds.drop 12).take 4 ++ '-' :: ((ds.drop 16).take 4 ++ '-' :: ds.drop 20))) := ⟨_, rfl⟩
  have htext : u.text = String.ofList groups := by
    rw [text, ← hds, hgroups]
    simp only [List.append_assoc, List.cons_append]
  have hread : ofHyphened? groups = some u := by
    rw [hgroups, ofHyphened?_groups (by simp [hlength]) (by simp [hlength]) (by simp [hlength])
      (by simp [hlength]) (by simp [hlength]), hall, hds, ofDigits?_hexDigits]
  have hlong : ofDigits? groups = none := if_neg (by simp [hgroups, hlength])
  obtain ⟨c, rest, hcons⟩ := List.exists_cons_of_length_pos (l := ds) (by omega)
  obtain ⟨d, hd, rfl⟩ := of_mem_hexDigits (c := c) (hds ▸ hcons ▸ List.mem_cons_self)
  obtain ⟨tail, htail⟩ : ∃ tail, groups = Nat.digitChar d :: tail := by
    rw [hgroups, hcons]
    exact ⟨_, rfl⟩
  rw [htext, htail, ofText?_of_digit hd, ← htail, hlong, hread]
  rfl

end VenueLink.Uuid

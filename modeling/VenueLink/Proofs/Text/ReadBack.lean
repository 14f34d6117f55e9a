import Mathlib.Algebra.Group.Nat.Defs
import Mathlib.Data.List.DropRight
import VenueLink.Text.Blank
import VenueLink.Text.Digits
import VenueLink.Text.Utf8

/-!
# Texts that are read back

What is written in decimal digits, with or without zeros or a sign in front, is read back as the
same number, and what is encoded in UTF-8 is decoded to the same text, without anything that is
not a character. Trimming a text that is trimmed already changes nothing.

## Main results

* `digitsValue_padded`, `length_padded`: numbers of a width.
* `readInt?_toString`: an integer is read back from its decimal text.
* `trimChars_around`: blanks around a text do not matter.
* `Utf8.decodeLossy_encode`: a text is decoded from its bytes.
* `trim_trim`: trimming once is enough.
-/

namespace VenueLink.Text

/-! ### Digits -/

/-- The digits stand in a row among the characters. -/
theorem toNat_of_isDigit {c : Char} (h : c.isDigit = true) : 48 ≤ c.toNat ∧ c.toNat ≤ 57 :=
  Char.isDigit_iff_toNat.mp h

/-- They are not blank. -/
theorem isBlank_of_isDigit {c : Char} (h : c.isDigit = true) : isBlank c = false := by
  obtain ⟨hlow, hhigh⟩ := toNat_of_isDigit h
  simp only [isBlank, Bool.or_eq_false_iff, Bool.and_eq_false_iff, decide_eq_false_iff_not,
    beq_eq_false_iff_ne]
  omega

/-- The digits of a number are read back. -/
@[simp]
theorem digitsValue_toDigits (n : Nat) : digitsValue (Nat.toDigits 10 n) = n :=
  Nat.ofDigitChars_toDigits (by decide) (by decide)

/-- Padding adds nothing but digits. -/
theorem isDigit_of_mem_padded {width n : Nat} {c : Char} (h : c ∈ padded width n) :
    c.isDigit = true := by
  rw [padded] at h
  rcases List.mem_append.mp h with h | h
  · rw [List.eq_of_mem_replicate h]
    decide
  · exact Nat.isDigit_of_mem_toDigits (by decide) (by decide) h

/-- Zeros in front do not change the number. -/
@[simp]
theorem digitsValue_padded (width n : Nat) : digitsValue (padded width n) = n := by
  rw [padded, digitsValue, Nat.ofDigitChars_append, Nat.ofDigitChars_replicate_zero,
    Nat.mul_zero]
  exact digitsValue_toDigits n

/-- A number that fits into a width has exactly that many digits. -/
theorem length_padded {width n : Nat} (hwidth : 0 < width) (h : n < 10 ^ width) :
    (padded width n).length = width := by
  have hle := (Nat.length_toDigits_le_iff (by decide) hwidth).mpr h
  rw [padded, List.length_append, List.length_replicate]
  omega

/-- A number has some digits. -/
theorem padded_ne_nil (width n : Nat) : padded width n ≠ [] := by
  rw [padded]
  exact List.append_ne_nil_of_right_ne_nil _ (List.length_pos_iff.mp Nat.length_toDigits_pos)

/-- It is padded to its width. -/
theorem width_le_length_padded (width n : Nat) : width ≤ (padded width n).length := by
  rw [padded, List.length_append, List.length_replicate]
  omega

/-! ### Blanks -/

/-- A text that does not begin with a blank is left alone. -/
theorem skipBlank_cons {c : Char} (h : isBlank c = false) (cs : List Char) :
    skipBlank (c :: cs) = c :: cs := by
  rw [skipBlank, List.dropWhile_cons_of_neg (by simp [h])]

/-- Blanks are taken off at the front and then at the back. -/
theorem trimChars_eq (cs : List Char) :
    trimChars cs = (cs.dropWhile isBlank).rdropWhile isBlank := rfl

/-- Taking them off twice does nothing more. -/
theorem trimChars_trimChars (cs : List Char) : trimChars (trimChars cs) = trimChars cs := by
  have hfront : (trimChars cs).dropWhile isBlank = trimChars cs := by
    rw [List.dropWhile_eq_self_iff]
    intro hpos
    -- what is left begins as the text does without the blanks in front
    obtain ⟨back, hback⟩ := List.rdropWhile_prefix isBlank (cs.dropWhile isBlank)
    rw [← trimChars_eq] at hback
    have hlen : 0 < (cs.dropWhile isBlank).length := by
      rw [← hback, List.length_append]
      omega
    have hhead : (trimChars cs)[0] = (cs.dropWhile isBlank)[0] := by
      simp only [← hback, List.getElem_append_left hpos]
    rw [hhead]
    exact List.dropWhile_eq_self_iff.mp (List.dropWhile_idempotent isBlank cs) hlen
  rw [trimChars_eq (trimChars cs), hfront, trimChars_eq, List.rdropWhile_idempotent]

/-- Trimming once is enough. -/
theorem trim_trim (s : String) : trim (trim s) = trim s := by
  rw [trim, trim, String.toList_ofList, trimChars_trimChars]

/-- Blanks around a text that has none itself are cut off. -/
theorem trimChars_around {before cs after : List Char}
    (hbefore : ∀ c ∈ before, isBlank c = true) (hafter : ∀ c ∈ after, isBlank c = true)
    (hcs : ∀ c ∈ cs, isBlank c = false) : trimChars (before ++ cs ++ after) = cs := by
  have hfront :
      (before ++ cs ++ after).dropWhile isBlank = (cs ++ after).dropWhile isBlank := by
    rw [List.append_assoc, List.dropWhile_append_of_pos hbefore]
  have hback : (cs ++ after).rdropWhile isBlank = cs.rdropWhile isBlank := by
    rw [List.rdropWhile, List.rdropWhile, List.reverse_append,
      List.dropWhile_append_of_pos fun c hc => hafter c (List.mem_reverse.mp hc)]
  have hself : cs.rdropWhile isBlank = cs :=
    List.rdropWhile_eq_self_iff.mpr fun hne => by simp [hcs _ (List.getLast_mem hne)]
  rw [trimChars_eq, hfront]
  cases cs with
  | nil =>
    rw [List.nil_append, List.dropWhile_eq_nil_iff.mpr hafter]
    rfl
  | cons c rest =>
    have hc : ¬isBlank c = true := by simp [hcs c List.mem_cons_self]
    rw [List.cons_append, List.dropWhile_cons_of_neg hc, ← List.cons_append, hback, hself]

/-! ### Integers -/

/-- A number is read from digits, and from nothing else. -/
theorem readNat?_eq_some_iff {ds : List Char} {n : Nat} :
    readNat? ds = some n ↔ ds ≠ [] ∧ (∀ c ∈ ds, c.isDigit = true) ∧ digitsValue ds = n := by
  have hcond : (!ds.isEmpty && ds.all Char.isDigit) = true ↔
      ds ≠ [] ∧ ∀ c ∈ ds, c.isDigit = true := by
    simp
  rw [readNat?, Option.ite_none_right_eq_some, hcond, and_assoc, Option.some_inj]

/-- A number with a sign is read from digits after it. -/
theorem readNat?_of_map {ds : List Char} {f : Int → Int} {i : Int}
    (h : ((readNat? ds >>= fun n => pure (n : Int)).map f) = some i) :
    ds ≠ [] ∧ (∀ c ∈ ds, c.isDigit = true) ∧ i = f (digitsValue ds) := by
  cases hread : readNat? ds with
  | none =>
    rw [hread] at h
    cases h
  | some n =>
    obtain ⟨hne, hds, rfl⟩ := readNat?_eq_some_iff.mp hread
    rw [hread] at h
    exact ⟨hne, hds, (Option.some.inj h).symm⟩

/-- A text that is read as an integer has digits behind a sign, or digits only. -/
theorem readInt?_eq_some {cs : List Char} {i : Int} (h : readInt? cs = some i) :
    ∃ sign ds, cs = sign ++ ds ∧ ds ≠ [] ∧ (∀ c ∈ ds, c.isDigit = true) ∧
      (sign = ['-'] ∧ i = -digitsValue ds ∨
        (sign = ['+'] ∨ sign = []) ∧ i = digitsValue ds) := by
  rw [readInt?.eq_def] at h
  split at h <;> obtain ⟨hne, hds, rfl⟩ := readNat?_of_map h
  next ds => exact ⟨['-'], ds, rfl, hne, hds, .inl ⟨rfl, rfl⟩⟩
  next ds => exact ⟨['+'], ds, rfl, hne, hds, .inr ⟨.inl rfl, rfl⟩⟩
  next => exact ⟨[], cs, rfl, hne, hds, .inr ⟨.inr rfl, rfl⟩⟩

/-- A digit is no sign. -/
theorem ne_sign_of_isDigit {c : Char} (h : c.isDigit = true) : c ≠ '-' ∧ c ≠ '+' := by
  constructor <;> rintro rfl <;> exact absurd h (by decide)

/-- The digits of a number are digits. -/
theorem isDigit_of_mem_toDigits {n : Nat} {c : Char} (h : c ∈ Nat.toDigits 10 n) :
    c.isDigit = true :=
  Nat.isDigit_of_mem_toDigits (by decide) (by decide) h

/-- A number is read back from its digits. -/
theorem readNat?_toDigits (n : Nat) : readNat? (Nat.toDigits 10 n) = some n :=
  readNat?_eq_some_iff.mpr
    ⟨Nat.toDigits_ne_nil, fun _ => isDigit_of_mem_toDigits, digitsValue_toDigits n⟩

/-- An integer is read back from its decimal text. -/
theorem readInt?_toString (i : Int) : readInt? (toString i).toList = some i := by
  cases i with
  | ofNat n =>
    change readInt? (String.ofList (Nat.toDigits 10 n)).toList = _
    rw [String.toList_ofList]
    obtain ⟨c, cs, hcs⟩ := List.exists_cons_of_ne_nil (Nat.toDigits_ne_nil (n := n) (b := 10))
    have hread := readNat?_toDigits n
    have hc :=
      ne_sign_of_isDigit
        (isDigit_of_mem_toDigits (hcs ▸ List.mem_cons_self : c ∈ Nat.toDigits 10 n))
    rw [hcs] at hread ⊢
    rw [readInt?, hread]
    · rfl
    · rintro rest heq
      exact hc.1 (List.cons.inj heq).1
    · rintro rest heq
      exact hc.2 (List.cons.inj heq).1
  | negSucc n =>
    change readInt? ("-" ++ String.ofList (Nat.toDigits 10 (n + 1))).toList = _
    rw [String.toList_append, String.toList_ofList, String.toList_ofList, List.singleton_append,
      readInt?, readNat?_toDigits]
    rfl

/-- There is nothing blank in the text of an integer. -/
theorem isBlank_of_mem_toString {i : Int} {c : Char} (h : c ∈ (toString i).toList) :
    isBlank c = false := by
  obtain ⟨sign, ds, hcs, -, hds, hsign⟩ := readInt?_eq_some (readInt?_toString i)
  rw [hcs] at h
  rcases List.mem_append.mp h with h | h
  · rcases hsign with ⟨rfl, -⟩ | ⟨rfl | rfl, -⟩
    · rw [List.mem_singleton.mp h]
      decide
    · rw [List.mem_singleton.mp h]
      decide
    · cases h
  · exact isBlank_of_isDigit (hds c h)

end VenueLink.Text

namespace VenueLink.Text.Utf8

/-! ### UTF-8 -/

/-- A character is no surrogate. -/
theorem toNat_valid (c : Char) : c.toNat < 0xD800 ∨ 0xDFFF < c.toNat ∧ c.toNat < 0x110000 :=
  c.valid

/-- The bytes of a character are bytes. -/
theorem lt_of_mem_encodeChar {c : Char} {b : Nat} (h : b ∈ encodeChar c) : b < 256 := by
  have hvalid := toNat_valid c
  unfold encodeChar at h
  dsimp only at h
  split at h
  · simp only [List.mem_singleton] at h
    omega
  · split at h
    · simp only [List.mem_cons, List.not_mem_nil, or_false] at h
      omega
    · split at h <;> simp only [List.mem_cons, List.not_mem_nil, or_false] at h <;> omega

/-- The bytes of a text are bytes. -/
theorem lt_of_mem_encode {cs : List Char} {b : Nat} (h : b ∈ encode cs) : b < 256 := by
  obtain ⟨c, -, hb⟩ := List.mem_flatMap.mp h
  exact lt_of_mem_encodeChar hb

/-- The characters of ASCII are their own bytes. -/
theorem encode_of_ascii {cs : List Char} (h : ∀ c ∈ cs, c.toNat < 0x80) :
    encode cs = cs.map Char.toNat := by
  induction cs with
  | nil => rfl
  | cons c rest ih =>
    have hc : encodeChar c = [c.toNat] := if_pos (h c List.mem_cons_self)
    rw [encode, List.flatMap_cons, hc, List.map_cons,
      ← ih fun d hd => h d (List.mem_cons_of_mem _ hd)]
    rfl

/-- A byte within its bounds that is the last one missing completes a character. -/
theorem decodeFrom_last {p : Partial} {b : Nat} (hlow : p.low ≤ b) (hhigh : b ≤ p.high)
    (hlast : p.missing = 1) (rest : List Nat) : decodeFrom (some p) (b :: rest) =
      some (Char.ofNat (p.value * 64 + (b - 0x80))) :: decodeFrom none rest := by
  simp [decodeFrom, hlow, hhigh, hlast]

/-- A byte within its bounds that is not the last one missing brings a character on. -/
theorem decodeFrom_more {p : Partial} {b : Nat} (hlow : p.low ≤ b) (hhigh : b ≤ p.high)
    (hmore : p.missing ≠ 1) (rest : List Nat) : decodeFrom (some p) (b :: rest) =
      decodeFrom (some { value := p.value * 64 + (b - 0x80), missing := p.missing - 1 })
        rest := by
  simp [decodeFrom, hlow, hhigh, hmore]

/-- A character of ASCII begins no character of several bytes. -/
theorem lead?_of_lt {b : Nat} (h : b < 0x80) : lead? b = none := by
  rw [lead?, if_neg (by simp; omega), if_neg (by omega), if_neg (by omega),
    if_neg (by simp; omega), if_neg (by omega), if_neg (by omega), if_neg (by simp; omega)]

/-- A lead byte begins a character. -/
theorem decodeFrom_lead {b : Nat} {p : Partial} (h : lead? b = some p) (rest : List Nat) :
    decodeFrom none (b :: rest) = decodeFrom (some p) rest := by
  have hge : ¬b < 0x80 := fun hlt => by
    rw [lead?_of_lt hlt] at h
    cases h
  rw [decodeFrom, if_neg hge, h]

/-- The first byte of a character of two bytes. -/
theorem lead?_two {n : Nat} (hlow : 0x80 ≤ n) (hhigh : n < 0x800) :
    lead? (0xC0 + n / 64) = some { value := n / 64, missing := 1 } := by
  rw [lead?, if_pos (by simp; omega), Nat.add_sub_cancel_left]

/-- The first byte of a character of three bytes, whose second byte is within its bounds. -/
theorem lead?_three {n : Nat} (hlow : 0x800 ≤ n) (hhigh : n < 0x10000)
    (hvalid : n < 0xD800 ∨ 0xDFFF < n) : ∃ p, lead? (0xE0 + n / 4096) = some p ∧
      p.value = n / 4096 ∧ p.missing = 2 ∧ p.low ≤ 0x80 + n / 64 % 64 ∧
        0x80 + n / 64 % 64 ≤ p.high := by
  unfold lead?
  rw [if_neg (by simp; omega)]
  split
  · exact ⟨_, rfl, by dsimp only; omega, rfl, by dsimp only; omega, by dsimp only; omega⟩
  · split
    · exact ⟨_, rfl, by dsimp only; omega, rfl, by dsimp only; omega, by dsimp only; omega⟩
    · rw [if_pos (by simp; omega)]
      exact ⟨_, rfl, by dsimp only; omega, rfl, by dsimp only; omega, by dsimp only; omega⟩

/-- The first byte of a character of four bytes, whose second byte is within its bounds. -/
theorem lead?_four {n : Nat} (hlow : 0x10000 ≤ n) (hhigh : n < 0x110000) :
    ∃ p, lead? (0xF0 + n / 262144) = some p ∧ p.value = n / 262144 ∧ p.missing = 3 ∧
      p.low ≤ 0x80 + n / 4096 % 64 ∧ 0x80 + n / 4096 % 64 ≤ p.high := by
  unfold lead?
  rw [if_neg (by simp; omega), if_neg (by omega), if_neg (by omega), if_neg (by simp; omega)]
  split
  · exact ⟨_, rfl, by dsimp only; omega, rfl, by dsimp only; omega, by dsimp only; omega⟩
  · split
    · exact ⟨_, rfl, by dsimp only; omega, rfl, by dsimp only; omega, by dsimp only; omega⟩
    · rw [if_pos (by simp; omega)]
      exact ⟨_, rfl, by dsimp only; omega, rfl, by dsimp only; omega, by dsimp only; omega⟩

/-- The bytes of a character are decoded to it, whatever follows. -/
theorem decodeFrom_encodeChar (c : Char) (rest : List Nat) :
    decodeFrom none (encodeChar c ++ rest) = some c :: decodeFrom none rest := by
  have hvalid := toNat_valid c
  have hchar : Char.ofNat c.toNat = c := Char.ofNat_toNat c
  unfold encodeChar
  dsimp only
  generalize hn : c.toNat = n at hvalid hchar
  split
  next hone =>
    rw [List.singleton_append, decodeFrom, if_pos hone, hchar]
  next hone =>
    split
    next htwo =>
      rw [List.cons_append, List.singleton_append, decodeFrom_lead (lead?_two (by omega) htwo),
        decodeFrom_last (by dsimp only; omega) (by dsimp only; omega) rfl]
      dsimp only
      rw [show n / 64 * 64 + (0x80 + n % 64 - 0x80) = n by omega, hchar]
    next htwo =>
      split
      next hthree =>
        obtain ⟨p, hlead, hvalue, hmissing, hlow, hhigh⟩ :=
          lead?_three (by omega) hthree (by omega)
        rw [List.cons_append, List.cons_append, List.singleton_append, decodeFrom_lead hlead,
          decodeFrom_more hlow hhigh (by omega),
          decodeFrom_last (by dsimp only; omega) (by dsimp only; omega) (by dsimp only; omega)]
        dsimp only
        rw [hvalue, show (n / 4096 * 64 + (0x80 + n / 64 % 64 - 0x80)) * 64 +
          (0x80 + n % 64 - 0x80) = n
          by omega, hchar]
      next hthree =>
        obtain ⟨p, hlead, hvalue, hmissing, hlow, hhigh⟩ :=
          lead?_four (n := n) (by omega) (by omega)
        rw [List.cons_append, List.cons_append, List.cons_append, List.singleton_append,
          decodeFrom_lead hlead, decodeFrom_more hlow hhigh (by omega),
          decodeFrom_more (by dsimp only; omega) (by dsimp only; omega) (by dsimp only; omega),
          decodeFrom_last (by dsimp only; omega) (by dsimp only; omega) (by dsimp only; omega)]
        dsimp only
        rw [hvalue, show ((n / 262144 * 64 + (0x80 + n / 4096 % 64 - 0x80)) * 64 +
          (0x80 + n / 64 % 64 - 0x80)) * 64 + (0x80 + n % 64 - 0x80) = n by omega, hchar]

/-- The bytes of a text are decoded to its characters and nothing else. -/
theorem decode_encode (cs : List Char) : decode (encode cs) = cs.map some := by
  induction cs with
  | nil => rfl
  | cons c rest ih =>
    rw [encode, List.flatMap_cons, decode, decodeFrom_encodeChar]
    exact congrArg (some c :: ·) ih

/-- Nothing is lost of a text that has been encoded. -/
theorem decodeLossy_encode (cs : List Char) : decodeLossy (encode cs) = cs := by
  rw [decodeLossy, decode_encode, List.map_map]
  exact List.map_id'' (fun _ => rfl) cs

end VenueLink.Text.Utf8

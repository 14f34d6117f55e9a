import VenueLink.Balance
import VenueLink.Proofs.Json.Integers
import VenueLink.Proofs.Text.Splitting

/-!
# Kinds that are listed in a text

A text lists kinds of balances between commas. `Lists` says what it lists, part by part: a part
that is an integer of 64 bits, up to blanks around it, is a kind, and any other part is none.
`Renders` is the way back, the many texts that kinds may be written as. No text stands for no
kinds.

## Main results

* `kindsOf_eq`: the kinds of a text are those that its parts list, and if they list none the
  default ones.
* `kindsOf_of_renders`: kinds that are written as a text are read back, whatever else is between
  them.
-/

namespace VenueLink

open Text

/-- The text is an integer of 64 bits in decimal, with or without a sign. -/
def Text.Writes (s : String) (i : Int) : Prop :=
  IsInt64 i ∧ ∃ sign ds, s.toList = sign ++ ds ∧ ds ≠ [] ∧ (∀ c ∈ ds, c.isDigit = true) ∧
    (sign = ['-'] ∧ i = -digitsValue ds ∨ (sign = ['+'] ∨ sign = []) ∧ i = digitsValue ds)

/-- The parts of a text are what is between its commas. -/
structure Text.Parts (s : String) (parts : List String) : Prop where
  ne_nil : parts ≠ []
  no_comma : ∀ part ∈ parts, ',' ∉ part.toList
  joined : ",".intercalate parts = s

namespace Balance

/-- The parts that are integers, up to blanks around them, are the kinds, in their order. -/
inductive Lists : List String → List Int → Prop where
  | nil : Lists [] []
  | kind {part parts i kinds} (hpart : Writes (trim part) i) (rest : Lists parts kinds) :
      Lists (part :: parts) (i :: kinds)
  | other {part parts kinds} (hpart : ∀ i, ¬Writes (trim part) i) (rest : Lists parts kinds) :
      Lists (part :: parts) kinds

/-- The kinds as parts, in decimal with any blanks around, and between them any parts that are
no integers. -/
inductive Renders : List Int → List String → Prop where
  | nil : Renders [] []
  | kind {i kinds parts before after} (hi : IsInt64 i)
      (hbefore : ∀ c ∈ before, isBlank c = true)
      (hafter : ∀ c ∈ after, isBlank c = true) (rest : Renders kinds parts) :
      Renders (i :: kinds) (spaced before after i :: parts)
  | other {part kinds parts} (hcomma : ',' ∉ part.toList) (hpart : ∀ i, ¬Writes (trim part) i)
      (rest : Renders kinds parts) : Renders kinds (part :: parts)

/-! ### Integers in decimal -/

/-- Digits without a sign are read as their number. -/
theorem readInt?_of_digits {ds : List Char} (hne : ds ≠ []) (hds : ∀ c ∈ ds, c.isDigit = true) :
    readInt? ds = some (digitsValue ds : Int) := by
  have hread : readNat? ds = some (digitsValue ds) := readNat?_eq_some_iff.mpr ⟨hne, hds, rfl⟩
  rw [readInt?.eq_def]
  split
  next rest => exact absurd rfl (ne_sign_of_isDigit (hds _ List.mem_cons_self)).1
  next rest => exact absurd rfl (ne_sign_of_isDigit (hds _ List.mem_cons_self)).2
  next =>
    rw [hread]
    rfl

/-- A number of 64 bits is read when it is written there. -/
theorem readInt64?_eq_some_iff {s : String} {i : Int} :
    readInt64? s.toList = some i ↔ Writes s i := by
  rw [readInt64?, Option.filter_eq_some_iff, Writes, and_comm]
  refine and_congr (by simp [IsInt64]) ⟨readInt?_eq_some, ?_⟩
  rintro ⟨sign, ds, hs, hne, hds, hsign⟩
  have hread : readNat? ds = some (digitsValue ds) := readNat?_eq_some_iff.mpr ⟨hne, hds, rfl⟩
  rcases hsign with ⟨rfl, rfl⟩ | ⟨rfl | rfl, rfl⟩
  · rw [hs, List.singleton_append, readInt?, hread]
    rfl
  · rw [hs, List.singleton_append, readInt?, hread]
    rfl
  · rw [hs, List.nil_append, readInt?_of_digits hne hds]

/-! ### Kinds -/

/-- The kind that a part is, if it is one. -/
def kindIn? (part : String) : Option Int :=
  readInt64? (trim part).toList

/-- A part names a kind when it is a number between blanks. -/
theorem kindIn?_eq_some_iff {part : String} {i : Int} :
    kindIn? part = some i ↔ Writes (trim part) i :=
  readInt64?_eq_some_iff

/-- A part that is no number names none. -/
theorem kindIn?_eq_none_iff {part : String} :
    kindIn? part = none ↔ ∀ i, ¬Writes (trim part) i := by
  simp only [Option.eq_none_iff_forall_ne_some, ne_eq, kindIn?_eq_some_iff]

/-- What a text lists, computed. -/
theorem lists_iff {parts : List String} {kinds : List Int} :
    Lists parts kinds ↔ parts.filterMap kindIn? = kinds := by
  constructor
  · intro h
    induction h with
    | nil => rfl
    | kind hpart _ ih => rw [List.filterMap_cons_some (kindIn?_eq_some_iff.mpr hpart), ih]
    | other hpart _ ih => rw [List.filterMap_cons_none (kindIn?_eq_none_iff.mpr hpart), ih]
  · rintro rfl
    induction parts with
    | nil => exact .nil
    | cons part parts ih =>
      cases hpart : kindIn? part with
      | none =>
        rw [List.filterMap_cons_none hpart]
        exact .other (kindIn?_eq_none_iff.mp hpart) ih
      | some i =>
        rw [List.filterMap_cons_some hpart]
        exact .kind (kindIn?_eq_some_iff.mp hpart) ih

/-- The parts of a text are what stands between its commas. -/
theorem parts_iff {s : String} {parts : List String} :
    Parts s parts ↔ splitOn ',' s.toList = parts.map String.toList := by
  have hjoined : ",".intercalate parts = s ↔
      [','].intercalate (parts.map String.toList) = s.toList := by
    rw [← String.toList_inj, String.toList_intercalate]
    rfl
  rw [splitOn_eq_iff, List.forall_mem_map, ← hjoined]
  exact ⟨fun h => ⟨mt List.map_eq_nil_iff.mp h.ne_nil, h.no_comma, h.joined⟩,
    fun ⟨hne, hcomma, hjoin⟩ => ⟨fun hnil => hne (hnil ▸ rfl), hcomma, hjoin⟩⟩

/-- Every text has its parts. -/
theorem exists_parts (s : String) : ∃ parts, Parts s parts :=
  ⟨(splitOn ',' s.toList).map String.ofList, parts_iff.mpr (by simp [Function.comp_def])⟩

/-- The kinds of a text are those that its parts list, and if they list none the default ones.
-/
theorem kindsOf_eq {s : String} {parts : List String} {kinds : List Int}
    (hparts : Parts s parts) (hkinds : Lists parts kinds) :
    kindsOf (some s) = if kinds = [] then defaultKinds else kinds := by
  have hread :
      ((splitOn ',' s.toList).filterMap fun part => readInt64? (trimChars part)) = kinds := by
    rw [parts_iff.mp hparts, List.filterMap_map, ← lists_iff.mp hkinds]
    refine List.filterMap_congr fun part _ => ?_
    rw [kindIn?, trim, String.toList_ofList]
    rfl
  rw [kindsOf]
  simp only [hread, List.isEmpty_iff]

/-- No text stands for no kinds. -/
theorem kindsOf_ne_nil (raw : Option String) : kindsOf raw ≠ [] := by
  have hdefault : defaultKinds ≠ [] := List.cons_ne_nil _ _
  cases raw with
  | none => exact hdefault
  | some s =>
    obtain ⟨parts, hparts⟩ := exists_parts s
    rw [kindsOf_eq hparts (lists_iff.mpr rfl)]
    split
    · exact hdefault
    · assumption

/-! ### Kinds that are written -/

/-- The text of a number writes it. -/
theorem writes_toString {i : Int} (hi : IsInt64 i) : Writes (toString i) i := by
  refine readInt64?_eq_some_iff.mp ?_
  rw [readInt64?, readInt?_toString, Option.filter_some, if_pos (by simpa [IsInt64] using hi)]

/-- Trimming takes off the blanks around a number. -/
theorem trim_spaced {before after : List Char} (hbefore : ∀ c ∈ before, isBlank c = true)
    (hafter : ∀ c ∈ after, isBlank c = true) (i : Int) :
    trim (spaced before after i) = toString i := by
  rw [trim, spaced, String.toList_ofList,
    trimChars_around hbefore hafter fun _ => isBlank_of_mem_toString, String.ofList_toList]

/-- There is no comma in a number between blanks. -/
theorem comma_not_mem_spaced {before after : List Char}
    (hbefore : ∀ c ∈ before, isBlank c = true) (hafter : ∀ c ∈ after, isBlank c = true)
    (i : Int) : ',' ∉ (spaced before after i).toList := by
  rw [spaced, String.toList_ofList, List.mem_append, List.mem_append]
  rintro ((hc | hc) | hc)
  · exact absurd (hbefore _ hc) (by decide)
  · -- the characters of a number are digits, or a sign in front of them
    obtain ⟨sign, ds, hcs, -, hds, hsign⟩ := readInt?_eq_some (readInt?_toString i)
    rw [hcs, List.mem_append] at hc
    rcases hc with hc | hc
    · rcases hsign with ⟨rfl, -⟩ | ⟨rfl | rfl, -⟩ <;> exact absurd hc (by decide)
    · exact absurd (hds _ hc) (by decide)
  · exact absurd (hafter _ hc) (by decide)

/-- There is no comma in any part. -/
theorem Renders.no_comma {kinds : List Int} {parts : List String} (h : Renders kinds parts) :
    ∀ part ∈ parts, ',' ∉ part.toList := by
  induction h with
  | nil => exact fun _ hpart => absurd hpart List.not_mem_nil
  | kind _ hbefore hafter _ ih =>
      exact List.forall_mem_cons.mpr ⟨comma_not_mem_spaced hbefore hafter _, ih⟩
  | other hcomma _ _ ih => exact List.forall_mem_cons.mpr ⟨hcomma, ih⟩

/-- The parts list the kinds that they are written for. -/
theorem Renders.lists {kinds : List Int} {parts : List String} (h : Renders kinds parts) :
    Lists parts kinds := by
  induction h with
  | nil => exact .nil
  | kind hi hbefore hafter _ ih =>
    exact .kind (by rw [trim_spaced hbefore hafter]; exact writes_toString hi) ih
  | other _ hpart _ ih => exact .other hpart ih

/-- Kinds that are written as a text are read back, whatever else is between them. -/
theorem kindsOf_of_renders {kinds : List Int} {parts : List String} (h : Renders kinds parts)
    (hne : kinds ≠ []) : kindsOf (some (",".intercalate parts)) = kinds := by
  have hparts : parts ≠ [] := by
    rintro rfl
    cases h
    exact hne rfl
  rw [kindsOf_eq ⟨hparts, h.no_comma, rfl⟩ h.lists, if_neg hne]

example : kindsOf (some "\u2003+4 ,, real,-9223372036854775808,9223372036854775808,4") =
    [4, -9223372036854775808, 4] := by
  decide +kernel

end Balance

end VenueLink

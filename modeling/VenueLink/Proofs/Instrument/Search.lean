import Mathlib.Data.List.Forall2
import Mathlib.Data.List.Infix
import VenueLink.Instrument
import VenueLink.Proofs.Order.Refusal
import VenueLink.Proofs.Text.ReadBack

/-!
# The search for an instrument

A message of the venue is searched for a ticker: the message has to be about instruments, and of
those that it lists the first one with the ticker counts, even if its id is empty and a later
one has a better id. All comparisons are up to the case of ASCII letters, and an id that is
found is never the empty text, because whatever is truthy has a text.

## Main results

* `Text.lowerAscii_eq_iff`: what it means that two texts agree up to case.
* `Json.asText_ne_empty`: whatever is truthy has a text.
* `find?_eq_some_iff`: what is found in a message.
* `find?_congr`: the case of the ticker does not matter.
-/

namespace VenueLink

namespace Text

/-! ### Letters in either case -/

/-- The same character, or the same ASCII letter in the other case. -/
def SameLetter (c d : Char) : Prop :=
  c = d ∨ ('A' ≤ c ∧ c ≤ 'Z' ∧ d.toNat = c.toNat + 32) ∨
    ('A' ≤ d ∧ d ≤ 'Z' ∧ c.toNat = d.toNat + 32)

/-- The same characters up to the case of ASCII letters. -/
def SameLetters (cs ds : List Char) : Prop :=
  List.Forall₂ SameLetter cs ds

/-- The small letters stand 32 places after the capital ones. -/
theorem toNat_toLower (c : Char) :
    c.toLower.toNat = if 'A' ≤ c ∧ c ≤ 'Z' then c.toNat + 32 else c.toNat := by
  by_cases h : 'A' ≤ c ∧ c ≤ 'Z'
  · have hle : c.toNat ≤ 90 := h.2
    have hval : c.toLower.val = c.val + ('a'.val - 'A'.val) := congrArg Char.val (dif_pos h)
    have hnat : c.toLower.toNat = (c.toNat + 32) % 2 ^ 32 :=
      (congrArg UInt32.toNat hval).trans (UInt32.toNat_add ..)
    rw [if_pos h, hnat, Nat.mod_eq_of_lt (by omega)]
  · rw [if_neg h]
    exact congrArg Char.toNat (dif_neg h)

/-- Two characters have the same small letter when they are the same letter. -/
theorem toLower_eq_iff {c d : Char} : c.toLower = d.toLower ↔ SameLetter c d := by
  have hcapital : ∀ c : Char, 'A' ≤ c ∧ c ≤ 'Z' ↔ 65 ≤ c.toNat ∧ c.toNat ≤ 90 :=
    fun _ => Iff.rfl
  rw [SameLetter, ← Char.toNat_inj, ← Char.toNat_inj, toNat_toLower, toNat_toLower, ← and_assoc,
    ← and_assoc]
  simp only [hcapital]
  split <;> split <;> omega

/-- So with the letters of a text. -/
theorem map_toLower_eq_iff {cs ds : List Char} :
    cs.map Char.toLower = ds.map Char.toLower ↔ SameLetters cs ds := by
  rw [← List.forall₂_eq_eq_eq, List.forall₂_map_left_iff, List.forall₂_map_right_iff,
    SameLetters]
  simp only [toLower_eq_iff]

/-- Two texts are the same in small letters if they have the same letters. -/
theorem lowerAscii_eq_iff {s t : String} :
    lowerAscii s = lowerAscii t ↔ SameLetters s.toList t.toList := by
  rw [lowerAscii, lowerAscii, String.ofList_inj, map_toLower_eq_iff]

/-- Texts are the same but for case when their letters are. -/
theorem sameIgnoringCase_iff {s t : String} :
    sameIgnoringCase s t = true ↔ SameLetters s.toList t.toList := by
  rw [sameIgnoringCase, beq_iff_eq, lowerAscii_eq_iff]

/-- A text occurs in another one when it is a part of it without gaps. -/
theorem occursIn_iff {needle cs : List Char} : occursIn needle cs = true ↔ needle <:+: cs := by
  induction cs with
  | nil => rw [occursIn, List.isEmpty_iff, List.infix_nil]
  | cons c cs ih =>
      rw [occursIn, Bool.or_eq_true, List.isPrefixOf_iff_prefix, ih, List.infix_cons_iff]

/-- A word in small letters occurs in a text in small letters if some part of the text has its
letters. -/
theorem occursIn_lowerAscii_iff {word : List Char} (hword : word.map Char.toLower = word)
    {s : String} :
    occursIn word (lowerAscii s).toList = true ↔
      ∃ part, part <:+: s.toList ∧ SameLetters part word := by
  rw [occursIn_iff, lowerAscii, String.toList_ofList, List.infix_map_iff]
  simp only [← map_toLower_eq_iff, hword, eq_comm]

end Text

namespace Double

/-- A finite number has a text. -/
theorem text_ne_empty {d : Double} (h : d.isFinite = true) : d.text ≠ "" := by
  have hpoint : ∀ m k, pointText m k ≠ [] := by
    intro m k
    have hdigits : Nat.toDigits 10 m ≠ [] := List.length_pos_iff.mp Nat.length_toDigits_pos
    simp only [pointText]
    split
    · exact List.append_ne_nil_of_left_ne_nil hdigits _
    · split <;> simp
  match d with
  | nan => cases h
  | infinite s => cases h
  | finite s m e =>
    have hmagnitude : magnitudeText m e ≠ [] := by
      simp only [magnitudeText, exponentText]
      split
      · exact List.cons_ne_nil _ _
      · split
        · split
          · simp
          · exact hpoint _ _
        · simp
    rw [text, Ne, String.ofList_eq_empty_iff]
    exact List.append_ne_nil_of_right_ne_nil _ hmagnitude

end Double

namespace Json

/-! ### Values -/

/-- No value is written as nothing. -/
theorem compact_ne_empty (j : Json) : j.compact ≠ "" := by
  cases j with
  | null => decide
  | bool b => cases b <;> decide
  | integer i =>
    intro h
    have hread := Text.readInt?_toString i
    rw [show toString i = "" from h] at hread
    cases hread
  | double d =>
    rw [compact, doubleText]
    split
    next h => exact Double.text_ne_empty h
    next => decide
  | string s => simp [compact, quoted]
  | array items => simp [compact, String.append_eq_empty_iff]
  | object fields => simp [compact, String.append_eq_empty_iff]

/-- Whatever is truthy has a text. -/
theorem asText_ne_empty {j : Json} (h : j.isTruthy = true) : j.asText ≠ "" := by
  cases j with
  | null => cases h
  | string s => exact of_decide_eq_true h
  | _ => exact compact_ne_empty _

/-- The content of a message is the first of some fields that is there and not `null`, and the
message itself if there is none. -/
inductive IsContent (raw : Json) : List String → Json → Prop
  | here {key : String} {rest : List String} {v : Json} (hv : raw.get? key = some v)
      (hne : v ≠ null) :
    IsContent raw (key :: rest) v
  | later {key : String} {rest : List String} {v : Json} (hnull : raw.getD key = null)
    (h : IsContent raw rest v) : IsContent raw (key :: rest) v
  | whole : IsContent raw [] raw

/-- The content is under the first key, or where that is null under the others. -/
theorem payload_cons (raw : Json) (key : String) (rest : List String) :
    raw.payload (key :: rest) = if raw.getD key =
      null then raw.payload rest else raw.getD key := by
  rw [payload, getD, payload]
  cases hget : raw.get? key with
  | none => simp [hget]
  | some v => cases v <;> simp [hget, isNull]

/-- The content of a message is what is found under its keys. -/
theorem isContent_iff {raw p : Json} {keys : List String} :
    IsContent raw keys p ↔ raw.payload keys = p := by
  induction keys with
  | nil =>
    constructor
    · rintro ⟨⟩
      rfl
    · rintro rfl
      exact .whole
  | cons key rest ih =>
    rw [payload_cons]
    by_cases hnull : raw.getD key = null
    · rw [if_pos hnull, ← ih]
      constructor
      · rintro (⟨hv, hne⟩ | ⟨-, h⟩)
        · rw [getD, hv] at hnull
          exact absurd hnull hne
        · exact h
      · exact .later hnull
    · rw [if_neg hnull]
      constructor
      · rintro (⟨hv, -⟩ | ⟨hnull', -⟩)
        · rw [getD, hv, Option.getD_some]
        · exact absurd hnull' hnull
      · rintro rfl
        cases hget : raw.get? key with
        | none => simp [getD, hget] at hnull
        | some v => simpa [getD, hget] using .here hget (by simpa [getD, hget] using hnull)

end Json

namespace Instrument

open Json Text

/-! ### What is found -/

/-- The message has a name, and a part of it is the word for instruments in any case. -/
def IsAbout (raw : Json) : Prop :=
  ∃ name part, raw.get? "name" = some (string name) ∧ part <:+: name.toList ∧
    SameLetters part "instrument".toList

/-- The content of the message lists the entries. -/
def Lists (raw : Json) (entries : List Json) : Prop :=
  ∃ p, IsContent raw ["msg", "result"] p ∧ p.get? "instruments" = some (array entries)

/-- The text of the ticker of an entry is the ticker up to case. -/
def IsNamed (ticker : String) (entry : Json) : Prop :=
  SameLetters (entry.getD "ticker").asText.toList ticker.toList

/-- The entry is the first one with the ticker. -/
def IsFirst (ticker : String) (entries : List Json) (entry : Json) : Prop :=
  IsNamed ticker entry ∧ ∃ before after, entries = before ++ entry :: after ∧
    ∀ e ∈ before, ¬IsNamed ticker e

/-- A message that is searched for a ticker has an id: it is about instruments, and the first of
its entries with the ticker has an id that is neither `null` nor false, zero or no text. -/
def Has (raw : Json) (ticker id : String) : Prop :=
  IsAbout raw ∧ ∃ entries entry, Lists raw entries ∧ IsFirst ticker entries entry ∧
    entry.getD "id" ≠ null ∧ ¬(entry.getD "id").IsHollow ∧ (entry.getD "id").asText = id

variable {raw entry : Json} {ticker ticker' id : String} {entries : List Json}

/-- A message is about instruments by its name. -/
theorem isAboutInstruments_iff : isAboutInstruments raw = true ↔ IsAbout raw := by
  have hword : "instrument".toList.map Char.toLower = "instrument".toList := by decide
  rw [isAboutInstruments, IsAbout]
  split
  next name hname =>
    rw [occursIn_lowerAscii_iff hword]
    simp [hname]
  next hother =>
    refine iff_of_false Bool.false_ne_true ?_
    rintro ⟨name, part, hname, -⟩
    exact hother name hname

/-- The entries of a message are those that it lists. -/
theorem listed?_eq_some_iff : listed? raw = some entries ↔ Lists raw entries := by
  have harray : ∀ v : Json, v.array? = some entries ↔ v = array entries := by
    intro v
    cases v <;> simp [array?]
  simp [listed?, Lists, isContent_iff, Option.bind_eq_some_iff, harray]

/-- An entry has a ticker when it is named so. -/
theorem hasTicker_iff : hasTicker ticker entry = true ↔ IsNamed ticker entry :=
  sameIgnoringCase_iff

/-- What is found is the first entry of that name. -/
theorem find?_hasTicker_iff :
    entries.find? (hasTicker ticker) = some entry ↔ IsFirst ticker entries entry := by
  simp only [List.find?_eq_some_iff_append, IsFirst, ← hasTicker_iff, Bool.not_eq_true',
    Bool.not_eq_true]

/-- What is found in a message. -/
theorem find?_eq_some_iff : find? raw ticker = some id ↔ Has raw ticker id := by
  rw [find?, Has, ← isAboutInstruments_iff]
  split
  next habout =>
    simp only [habout, true_and, Option.bind_eq_bind, Option.bind_eq_some_iff,
      listed?_eq_some_iff, find?_hasTicker_iff, Option.ite_none_right_eq_some, Option.some_inj,
      isTruthy_iff, and_assoc, exists_and_left]
  next hother => simp [hother]

/-- The case of the ticker does not matter. -/
theorem find?_congr (h : SameLetters ticker.toList ticker'.toList) :
    find? raw ticker = find? raw ticker' := by
  have hticker : hasTicker ticker = hasTicker ticker' := by
    funext entry
    rw [hasTicker, hasTicker, sameIgnoringCase, sameIgnoringCase, lowerAscii_eq_iff.mpr h]
  rw [find?, find?, hticker]

/-- No message has the empty id. -/
theorem ne_empty_of_has (h : Has raw ticker id) : id ≠ "" := by
  obtain ⟨-, entries, entry, -, -, hnull, hhollow, rfl⟩ := h
  exact asText_ne_empty (isTruthy_iff.mpr ⟨hnull, hhollow⟩)

end Instrument

end VenueLink

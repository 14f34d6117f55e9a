import VenueLink.Proofs.Document.ReadBack

/-!
# What a reading gives

A value that has been read is one of those that the reading gives: an integer within its range,
a record whose parts have been read one by one or are defaults. Such values are what is written,
and what is read back: a record is taken apart field by field (`Fields.exists_of_build_seq`),
from the last one to the first.

## Main results

* `Reading.Reads.exists_document`: whatever is read from JSON is read from a document.
* `Fields.exists_of_read`: a record that is read has been built from values.
* `Fields.of_build_field`, `Fields.of_build_fieldOr`: where the parts of a record come from.
* `Reading.optional_ofOption`: a part that may be absent is read back.
-/

namespace VenueLink

open Document

namespace Reading

/-- The value can be read from JSON, be it a text or a value. -/
def Reads (r : Reading α) (a : α) : Prop :=
  (∃ text, readText r text = .ok a) ∨ ∃ j, readJson r j = .ok a

/-- A value that is read back is read from something. -/
theorem Reads.exists_document {r : Reading α} {a : α} (h : r.Reads a) : ∃ d, r d = .ok a := by
  rcases h with ⟨text, h⟩ | ⟨j, h⟩
  · rw [readText] at h
    generalize scan text.toList = scanned at h
    obtain ⟨b, hb, h⟩ := exists_of_bind_eq_ok h
    split at h
    · cases h
      exact ⟨_, hb⟩
    · cases h
  · rw [readJson] at h
    cases hr : r (ofJson j) with
    | error f =>
      rw [hr] at h
      cases h
    | ok b =>
      rw [hr] at h
      cases h
      exact ⟨_, hr⟩

/-- JSON is read as the document that it is. -/
theorem readJson_of_ofJson {r : Reading α} {j : Json} {a : α} (h : r (ofJson j) = .ok a) :
    readJson r j = .ok a := by
  rw [readJson, h]
  rfl

/-! ### Texts -/

/-- A value that is read from a text is the value of some text. -/
theorem exists_of_stringWith {f : String → Option α} {d : Document} {a : α}
    (h : stringWith f d = .ok a) : ∃ s, f s = some a := by
  rw [stringWith.eq_def] at h
  split at h
  · split at h
    next hs =>
      cases h
      exact ⟨_, hs⟩
    next => cases h
  · cases h

/-- A text with a value is read as that value. -/
theorem stringWith_ofJson {f : String → Option α} {s : String} {a : α} (h : f s = some a) :
    stringWith f (ofJson (.string s)) = .ok a := by
  rw [ofJson, stringWith, h]

/-! ### Integers -/

section Integer

variable {low high i : Int} {bound n : Nat} {d : Document}

/-- An integer that is read is within its bounds. -/
theorem bounds_of_integer (h : integer low high d = .ok i) : low ≤ i ∧ i ≤ high := by
  cases d with
  | integer j =>
    rw [integer] at h
    split at h
    next hj =>
      cases h
      simpa using hj
    next => cases h
  | _ => cases h

/-- An integer within the bounds is read back. -/
theorem integer_ofJson (hlow : low ≤ i) (hhigh : i ≤ high) :
    integer low high (ofJson (.integer i)) = .ok i := by
  rw [ofJson, integer, if_pos (by simp [hlow, hhigh])]

/-- A number that is read is below its bound. -/
theorem lt_of_natBelow (h : natBelow bound d = .ok n) : n < bound := by
  rw [natBelow] at h
  cases hi : integer 0 (bound - 1) d with
  | error f =>
    rw [hi] at h
    cases h
  | ok i =>
    rw [hi] at h
    cases h
    obtain ⟨hlow, hhigh⟩ := bounds_of_integer hi
    omega

/-- A number below the bound is read back. -/
theorem natBelow_ofJson (h : n < bound) : natBelow bound (ofJson (.integer n)) = .ok n := by
  rw [natBelow, integer_ofJson (by omega) (by omega)]
  rfl

end Integer

/-! ### Parts that may be absent -/

/-- What stands in an optional place has been read. -/
theorem of_optional {r : Reading α} {d : Document} {a : Option α} (h : optional r d = .ok a) :
    ∀ x ∈ a, ∃ d, r d = .ok x := by
  rw [optional.eq_def] at h
  split at h
  · cases h
    simp
  · cases hr : r d with
    | error f =>
      rw [hr] at h
      cases h
    | ok x =>
      rw [hr] at h
      cases h
      exact fun y hy => ⟨d, by rw [hr, Option.some.inj hy]⟩

/-- A part that may be absent is read back. -/
theorem optional_ofOption {r : Reading α} {w : α → Json} {a : Option α}
    (h : ∀ x ∈ a, r (ofJson (w x)) = .ok x) (hne : ∀ x, w x ≠ .null) :
    optional r (ofJson (.ofOption w a)) = .ok a := by
  cases a with
  | none => rfl
  | some x =>
    rw [Json.ofOption, optional]
    · rw [h x rfl]
      rfl
    · intro hnull
      cases hw : w x <;> rw [hw] at hnull <;> cases hnull
      exact hne x hw

end Reading

namespace Fields

variable {values : String → Option Document} {key : String} {r : Reading α} {a : α}

/-- A record that is read has been built from values. -/
theorem exists_of_read {f : Fields α} {d : Document} (h : f.read d = .ok a) :
    ∃ values, f.build values = .ok a := by
  rw [read.eq_def] at h
  split at h
  · obtain ⟨found, -, h⟩ := exists_of_bind_eq_ok h
    split at h
    · cases h
    · exact ⟨_, h⟩
  · obtain ⟨found, -, h⟩ := exists_of_bind_eq_ok h
    exact ⟨_, h⟩
  · cases h

/-- A record is built when its first fields and its last one are. -/
theorem exists_of_build_seq {f : Fields (α → β)} {x : Fields α} {b : β}
    (h : (f <*> x).build values = .ok b) :
    ∃ g a, f.build values = .ok g ∧ x.build values = .ok a ∧ g a = b := by
  rw [build_seq] at h
  obtain ⟨g, hg, h⟩ := exists_of_bind_eq_ok h
  obtain ⟨a, ha, h⟩ := exists_of_bind_eq_ok h
  cases h
  exact ⟨g, a, hg, ha, rfl⟩

/-- It is built with a function when its fields are built. -/
theorem exists_of_build_map {f : α → β} {x : Fields α} {b : β}
    (h : (f <$> x).build values = .ok b) : ∃ a, x.build values = .ok a ∧ f a = b := by
  rw [build_map] at h
  obtain ⟨a, ha, h⟩ := exists_of_bind_eq_ok h
  cases h
  exact ⟨a, ha, rfl⟩

/-- A part of a record has been read, unless it is a default. -/
theorem of_build_fieldOr {default : α} (h : (fieldOr key r default).build values = .ok a) :
    a = default ∨ ∃ d, r d = .ok a := by
  rw [fieldOr, fieldWith] at h
  dsimp only at h
  split at h
  · exact .inr ⟨_, h⟩
  · cases h
    exact .inl rfl

/-- A field that is built has been read. -/
theorem of_build_field (h : (field key r).build values = .ok a) : ∃ d, r d = .ok a := by
  rw [field, fieldWith] at h
  dsimp only at h
  split at h
  · exact ⟨_, h⟩
  · cases h

/-- A part that may be absent has been read if it is there. -/
theorem of_build_optionalField {a : Option α} (h : (optionalField key r).build values = .ok a) :
    ∀ x ∈ a, ∃ d, r d = .ok x := by
  rcases of_build_fieldOr h with rfl | ⟨d, hd⟩
  · simp
  · exact Reading.of_optional hd

/-! ### Parts that are there, and defaults -/

variable {d : Document}

/-- A value that is read as the part of its key is accepted. -/
theorem accepts_of_ok {slots : List Slot} {v : Json} {omissible : Bool}
    (h : r (ofJson v) = .ok a)
    (hslot : slots.find? (·.key == key) = some ⟨key, fun d => faultOf (r d), omissible⟩) :
    ∃ slot, slots.find? (·.key == key) = some slot ∧ slot.check (ofJson v) = none := by
  refine ⟨_, hslot, ?_⟩
  dsimp only
  rw [h]
  rfl

/-- A field that is there is read instead of its default. -/
theorem build_fieldOr {default : α} (h : values key = some d) :
    (fieldOr key r default).build values = r d := by
  rw [fieldOr, fieldWith]
  dsimp only
  rw [h]

/-- A field that is missing has its default. -/
theorem build_fieldOr_none {default : α} (h : values key = none) :
    (fieldOr key r default).build values = .ok default := by
  rw [fieldOr, fieldWith]
  dsimp only
  rw [h]

/-- An optional field that is there is read. -/
theorem build_optionalField (h : values key = some d) :
    (optionalField key r).build values = Reading.optional r d :=
  build_fieldOr h

end Fields

end VenueLink

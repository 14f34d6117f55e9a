import Mathlib.Data.List.Basic
import VenueLink.Text.Split

/-!
# Texts that are split and joined

Splitting at a character is the library's splitting of a list, so joining the parts gives the
text again, and parts without the character are the parts of the text that they are joined to.

## Main results

* `splitOn_eq_iff`: the parts of a text are the parts without the separator of which it is
  joined.
-/

namespace VenueLink.Text

variable {separator : Char} {cs : List Char}

/-- Splitting is that of lists. -/
theorem splitOn_eq (separator : Char) (cs : List Char) :
    splitOn separator cs = cs.splitOn separator := by
  induction cs with
  | nil => rfl
  | cons c rest ih =>
    have hcons : (c :: rest).splitOn separator = if (c == separator) = true then
        [] :: rest.splitOn separator else (rest.splitOn separator).modifyHead (List.cons c) :=
      List.splitOnP_cons_eq_if_modifyHead c rest
    rw [splitOn, ih, hcons]
    refine ite_congr (propext beq_iff_eq.symm) (fun _ => rfl) fun _ => ?_
    cases hparts : rest.splitOn separator with
    | nil => exact absurd hparts (List.splitOnP_ne_nil _ _)
    | cons part parts => rfl

/-- There is always some part. -/
theorem splitOn_ne_nil : splitOn separator cs ≠ [] := by
  rw [splitOn_eq]
  exact List.splitOnP_ne_nil _ _

/-- No part has the separator. -/
theorem not_mem_of_mem_splitOn {part : List Char} (h : part ∈ splitOn separator cs) :
    separator ∉ part := by
  induction cs generalizing part with
  | nil =>
    rw [List.mem_singleton.mp h]
    exact List.not_mem_nil
  | cons c rest ih =>
    rw [splitOn] at h
    split at h
    · rcases List.mem_cons.mp h with rfl | h
      · exact List.not_mem_nil
      · exact ih h
    next hc =>
      split at h
      next hparts => exact absurd hparts splitOn_ne_nil
      next first parts hparts =>
        rw [hparts] at ih
        rcases List.mem_cons.mp h with rfl | h
        · exact List.not_mem_cons_of_ne_of_not_mem (Ne.symm hc) (ih List.mem_cons_self)
        · exact ih (List.mem_cons_of_mem _ h)

/-- The parts of a text are the parts without the separator of which it is joined. -/
theorem splitOn_eq_iff {parts : List (List Char)} : splitOn separator cs = parts ↔
    parts ≠ [] ∧ (∀ part ∈ parts, separator ∉ part) ∧ [separator].intercalate parts = cs := by
  constructor
  · rintro rfl
    refine ⟨splitOn_ne_nil, fun _ => not_mem_of_mem_splitOn, ?_⟩
    rw [splitOn_eq]
    exact List.intercalate_splitOn separator
  · rintro ⟨hne, hparts, rfl⟩
    rw [splitOn_eq]
    exact List.splitOn_intercalate separator hparts hne

/-- A text without the separator is one part. -/
theorem splitOn_of_not_mem (h : separator ∉ cs) : splitOn separator cs = [cs] :=
  splitOn_eq_iff.mpr
    ⟨List.cons_ne_nil _ _, List.forall_mem_singleton.mpr h, List.intercalate_singleton⟩

/-- The first part ends at the first separator. -/
theorem splitOn_append (h : separator ∉ cs) (rest : List Char) :
    splitOn separator (cs ++ separator :: rest) = cs :: splitOn separator rest := by
  obtain ⟨hne, hparts, hrest⟩ := splitOn_eq_iff.mp (Eq.refl (splitOn separator rest))
  refine splitOn_eq_iff.mpr ⟨List.cons_ne_nil _ _, List.forall_mem_cons.mpr ⟨h, hparts⟩, ?_⟩
  rw [List.intercalate_cons_of_ne_nil hne, hrest, List.append_assoc, List.singleton_append]

end VenueLink.Text

import Mathlib.Data.List.Sort

/-!
# Stable sorting

Rows and records are sorted by a test that may hold both ways between two of them: they are of
one day, or of one instant. Such ones are tied, and sorting leaves them in the order in which
they were. That, and being sorted, says all about a sorted list (`eq_of_ties`); so one more at
the end of a list comes into the sorted list behind all that it is tied with.

## Main results

* `filter_mergeSort`: elements that are tied keep their order.
* `eq_of_ties`: a sorted list is determined by what is tied in it.
* `mergeSort_concat`: sorting with one more at the end.
-/

namespace VenueLink

variable {β : Type}

/-- A test to sort by: any two can be compared, and comparisons can be chained. -/
structure Ranks (le : β → β → Bool) : Prop where
  trans : ∀ a b c, le a b = true → le b c = true → le a c = true
  total : ∀ a b, (le a b || le b a) = true

/-- Neither of the two has to stand before the other. -/
def tied (le : β → β → Bool) (a b : β) : Bool :=
  le a b && le b a

namespace Ranks

variable {le : β → β → Bool} (h : Ranks le)
include h

/-- Everything may stand before itself. -/
theorem refl (a : β) : le a a = true := by
  simpa using h.total a a

/-- What may not stand before something may stand after it. -/
theorem of_not {a b : β} (hab : le a b = false) : le b a = true := by
  simpa [hab] using h.total a b

/-- Everything is tied with itself. -/
theorem tied_self (a : β) : tied le a a = true := by
  rw [tied, h.refl, Bool.and_self]

/-- Two values that are tied with a third may stand in either order. -/
theorem le_of_tied {a b c : β} (hb : tied le a b = true) (hc : tied le a c = true) :
    le b c = true := by
  rw [tied, Bool.and_eq_true] at hb hc
  exact h.trans b a c hb.2 hc.1

/-- A sorted list is in order. -/
theorem pairwise_mergeSort (l : List β) : (l.mergeSort le).Pairwise fun a b => le a b = true :=
  List.pairwise_mergeSort h.trans h.total l

/-- Elements that are all tied keep their order. -/
theorem filter_mergeSort (l : List β) {p : β → Bool}
    (hp : ∀ a b, p a = true → p b = true → le a b = true) :
    (l.mergeSort le).filter p = l.filter p := by
  have hpairwise : (l.filter p).Pairwise fun a b => le a b = true :=
    List.pairwise_of_forall_mem_list fun a ha b hb =>
      hp a b (List.mem_filter.mp ha).2 (List.mem_filter.mp hb).2
  have hsublist : (l.filter p).Sublist ((l.mergeSort le).filter p) := by
    have hfilter :=
      (List.sublist_mergeSort h.trans h.total hpairwise List.filter_sublist).filter p
    simpa only [List.filter_filter, Bool.and_self] using hfilter
  have hlength := ((List.mergeSort_perm l le).filter p).length_eq
  exact (hsublist.eq_of_length hlength.symm).symm

/-- The first element of a sorted list may stand before all of them. -/
theorem le_of_mem_cons {x : β} {l : List β} (hl : (x :: l).Pairwise fun a b => le a b = true)
    {a : β} (ha : a ∈ x :: l) : le x a = true := by
  rcases List.mem_cons.mp ha with rfl | hmem
  · exact h.refl a
  · exact (List.pairwise_cons.mp hl).1 a hmem

/-- A sorted list is determined by what is tied in it. -/
theorem eq_of_ties {l l' : List β} (hl : l.Pairwise fun a b => le a b = true)
    (hl' : l'.Pairwise fun a b => le a b = true)
    (hties : ∀ a, l.filter (tied le a) = l'.filter (tied le a)) : l = l' := by
  have hself : ∀ (x : β) (rest : List β), x ∈ (x :: rest).filter (tied le x) := fun x rest =>
    List.mem_filter.mpr ⟨List.mem_cons_self, h.tied_self x⟩
  induction l generalizing l' with
  | nil =>
    cases l' with
    | nil => rfl
    | cons y rest' => exact absurd (hties y ▸ hself y rest') List.not_mem_nil
  | cons x rest ih =>
    cases l' with
    | nil => exact absurd ((hties x).symm ▸ hself x rest) List.not_mem_nil
    | cons y rest' =>
      have hxy : tied le x y = true := by
        have hyx := h.le_of_mem_cons hl' (List.mem_filter.mp (hties x ▸ hself x rest)).1
        have hxy := h.le_of_mem_cons hl (List.mem_filter.mp ((hties y).symm ▸ hself y rest')).1
        rw [tied, hxy, hyx, Bool.and_self]
      have hheads := hties x
      rw [List.filter_cons_of_pos (h.tied_self x), List.filter_cons_of_pos hxy] at hheads
      obtain rfl := (List.cons.inj hheads).1
      refine congrArg (x :: ·) (ih hl.of_cons hl'.of_cons fun a => ?_)
      have ha := hties a
      rw [List.filter_cons, List.filter_cons] at ha
      split at ha
      · exact (List.cons.inj ha).2
      · exact ha

/-- A sorted list is first what may stand before an element, and then what may not. -/
theorem exists_split {l : List β} (hl : l.Pairwise fun a b => le a b = true) (x : β) :
    ∃ front back, l = front ++ back ∧ (∀ a ∈ front, le a x = true) ∧
      ∀ a ∈ back, le a x = false := by
  induction l with
  | nil => exact ⟨[], [], rfl, by simp, by simp⟩
  | cons a rest ih =>
    by_cases hax : le a x = true
    · obtain ⟨front, back, rfl, hfront, hback⟩ := ih hl.of_cons
      exact ⟨a :: front, back, rfl, List.forall_mem_cons.mpr ⟨hax, hfront⟩, hback⟩
    · refine ⟨[], a :: rest, rfl, by simp, fun c hc => ?_⟩
      exact Bool.eq_false_iff.mpr fun hcx => hax (h.trans a c x (h.le_of_mem_cons hl hc) hcx)

/-- One more at the end of a list comes into the sorted list behind all that may stand before
it. -/
theorem mergeSort_concat (l : List β) (x : β) :
    ∃ front back, l.mergeSort le = front ++ back ∧
      (l ++ [x]).mergeSort le = front ++ x :: back ∧
      (∀ a ∈ front, le a x = true) ∧ ∀ a ∈ back, le a x = false := by
  obtain ⟨front, back, hsplit, hfront, hback⟩ := h.exists_split (h.pairwise_mergeSort l) x
  refine ⟨front, back, hsplit, ?_, hfront, hback⟩
  have hsorted : (front ++ x :: back).Pairwise fun a b => le a b = true := by
    obtain ⟨hf, hb, hfb⟩ := List.pairwise_append.mp (hsplit ▸ h.pairwise_mergeSort l)
    refine List.pairwise_append.mpr
      ⟨hf, List.pairwise_cons.mpr ⟨fun b hmem => ?_, hb⟩, fun a ha => ?_⟩
    · exact h.of_not (hback b hmem)
    · exact List.forall_mem_cons.mpr ⟨hfront a ha, hfb a ha⟩
  refine h.eq_of_ties (h.pairwise_mergeSort _) hsorted fun a => ?_
  have hlast :
      back.filter (tied le a) ++ [x].filter (tied le a) = (x :: back).filter (tied le a) := by
    by_cases hax : tied le a x = true
    · -- what is tied with `a` may stand before `x`
      have hnone : back.filter (tied le a) = [] := by
        refine List.filter_eq_nil_iff.mpr fun b hb hab => ?_
        exact Bool.false_ne_true ((hback b hb).symm.trans (h.le_of_tied hab hax))
      rw [hnone, List.filter_cons_of_pos hax, List.filter_cons_of_pos hax, hnone]
      rfl
    · rw [List.filter_cons_of_neg hax, List.filter_cons_of_neg hax, List.filter_nil,
        List.append_nil]
  have hties : ∀ l : List β, (l.mergeSort le).filter (tied le a) = l.filter (tied le a) :=
    fun l => h.filter_mergeSort l fun b c => h.le_of_tied
  rw [hties, List.filter_append, ← hties l, hsplit, List.filter_append, List.append_assoc,
    hlast, List.filter_append]

end Ranks

end VenueLink
